/-
# NodePath.Proofs.Operations — whatever is done with a cursor

Besides the moves there are three ways to take nodes from a cursor: the first node, all nodes, and one node after the
other. Operations of all these kinds may come in any sequence, and whatever they are, they lead to a cursor of which it
is known what is pending. Two promises about such cursors hold only in part. All nodes are refused at a position; at
none, those are taken that are pending, which are not always all. Listing the set keeps what is pending, but not for a
cursor that has not started.

* §A  `Operation` and `Motion.Reaches`.
* §B  Every operation leads on.
* §C  Chains of stages roam.
* §D  All nodes of a chain.
* §E  The list of the set.
-/
import NodePath.Proofs.FirstNode
import NodePath.Proofs.Roaming

namespace NodePath

/-! ## §A  Operations -/

/-- **Operation** is what can be done with a cursor: a move, or taking nodes. -/
inductive Operation where
  | make (a : Move)
  | first
  | nodeSet
  | deliver

/-- **perform** is how the cursors of a motion perform an operation. -/
def Motion.perform (m : Motion) : Operation → Walk Answer
  | .make a => m.make a
  | .first => do pure (.node (← m.first))
  | .nodeSet => do pure (.nodes (← m.nodeSet))
  | .deliver => do pure (.node (← m.deliver))

/-- **Reaches** says to which cursor, and in which store, operations lead. An operation that fails leads to where the
failure found the cursor. -/
inductive Motion.Reaches (m : Motion) (c : Cursor) (st : Store) : Cursor → Store → Prop
  | start : Reaches m c st c st
  | perform {c' : Cursor} {st' : Store} (op : Operation) : Reaches m c st c' st' →
    Reaches m c st ((m.perform op).runOn c' st').2.1 ((m.perform op).runOn c' st').2.2

/-! ## §B  Every operation leads on -/

section

variable {base : Store} {s : Surroundings} {up m : Motion} {all l : List Pointer} {stands : Cursor → Place → Prop}
  {sets : List (List Pointer)} {start c c' : Cursor} {p : Place} {st st' : Store}

/-- Where a walk has come to when it does not fail. -/
theorem Walk.Yields.runOn {α : Type} {w : Walk α} {Q : α → Cursor → Prop} (h : w.Yields base c Q)
    (hst : base.Extends st) : ∃ a c' st', w.runOn c st = (.ok a, c', st') ∧ st.Extends st' ∧ Q a c' := by
  obtain ⟨a, c', st', hrun⟩ := h.works st hst
  exact ⟨a, c', st', hrun, h.ensures st hst a c' st' hrun⟩

/-- Wherever a cursor is, it started at the same place. -/
theorem Roams.restarted_of_pending (h : Roams base s up all stands sets start)
    (hc : Pending all stands sets start l c) : c.restarted = start := by
  cases hc with
  | walking hc => exact h.restarted hc
  | finished hover => exact hover.restarted

/-- **Every move** leads to a cursor of which it is known what is pending. -/
theorem Roams.make (h : Roams base s up all stands sets start) (hc : Pending all stands sets start l c) (a : Move) :
    ((up.next s).make a).Yields base c fun _ c' => ∃ l', Pending all stands sets start l' c' := by
  -- A cursor that is over stays so, whatever it is asked for; what it holds is what is pending.
  have hfinished : ∀ {c c'}, Cursor.RemainsOver start c c' → (c.frame.sorted.getD []).length < Walk.limit →
      ∃ l', Pending all stands sets start l' c' := fun hremains hlength =>
    ⟨_, .finished hremains.isOver (by rw [hremains.sorted]; exact hlength)⟩
  cases a with
  | nextSet =>
    cases hc with
    | walking hc =>
      have hnext : (up.next s).nextSet.Yields base c _ := ⟨h.unfailing.nextSet hc, h.traverses.nextSet hc⟩
      exact hnext.bind fun _ _ hc' => .pure ⟨_, .walking hc'.1⟩
    | finished hover hlength =>
      exact (Walk.Yields.of_runOn (hover.runOn_advanceSet up) (hfinished hover.rewound hlength)).bind fun _ _ hc' =>
        .pure hc'
  | nextNode =>
    cases hc with
    | walking hc =>
      have hnext : (up.next s).nextNode.Yields base c _ := ⟨h.unfailing.nextNode hc, h.traverses.nextNode hc⟩
      exact hnext.bind fun _ _ hc' => .pure ⟨_, .walking hc'.1⟩
    | finished hover hlength =>
      exact (Walk.Yields.of_runOn (hover.runOn_advanceNode s up) (hfinished hover.remains hlength)).bind fun _ _ hc' =>
        .pure hc'
  | setPosition k =>
    cases hc with
    | walking hc => exact (h.setPosition hc k).bind fun _ _ hc' => .pure hc'
    | finished hover hlength =>
      obtain ⟨found, c', hrun, hremains, -⟩ := hover.exists_moveTo s up k
      exact (Walk.Yields.of_runOn hrun (hfinished hremains hlength)).bind fun _ _ hc' => .pure hc'
  | rewind =>
    cases hc with
    | walking hc => exact .move_bind (.pure ⟨_, .walking (h.traverses.rewound hc)⟩)
    | finished hover hlength => exact .move_bind (.pure (hfinished hover.rewound hlength))
  | current =>
    cases hc with
    | walking hc => exact (h.current hc).bind fun _ _ hc' => .pure hc'
    | finished hover hlength =>
      obtain ⟨p?, c', hrun, hremains⟩ := hover.exists_nodeHere s up
      exact (Walk.Yields.of_runOn hrun (hfinished hremains hlength)).bind fun _ _ hc' => .pure hc'
  | listSet => exact (h.listing hc).bind fun _ _ hc' => .pure ⟨_, hc'.2⟩
  | restart =>
    refine .move_bind (.pure ?_)
    rw [h.restarted_of_pending hc]
    exact ⟨_, .walking h.begins⟩

/-- **Every operation** does, also one that fails. -/
theorem Roams.perform (h : Roams base s up all stands sets start) (hc : Pending all stands sets start l c)
    (hst : base.Extends st) (op : Operation) : st.Extends (((up.next s).perform op).runOn c st).2.2 ∧
      ∃ l', Pending all stands sets start l' (((up.next s).perform op).runOn c st).2.1 := by
  have hleads : ((up.next s).perform op).Yields base c (fun _ c' => ∃ l', Pending all stands sets start l' c') →
      st.Extends (((up.next s).perform op).runOn c st).2.2 ∧
        ∃ l', Pending all stands sets start l' (((up.next s).perform op).runOn c st).2.1 := by
    intro hyields
    obtain ⟨a, c', st', hrun, hext, hpending⟩ := hyields.runOn hst
    rw [hrun]
    exact ⟨hext, hpending⟩
  -- All operations but one go through without an error; what is refused leaves the cursor where it was.
  cases op with
  | make a => exact hleads (h.make hc a)
  | deliver => exact hleads ((h.deliver hc).bind fun _ _ hc' => .pure ⟨_, hc'.2⟩)
  | first =>
    refine hleads (Walk.Yields.bind (m := (up.next s).first) (Q := fun _ c' => ∃ l', Pending all stands sets start l' c')
      (.move_bind ?_) fun _ _ hc' => .pure hc')
    rw [h.restarted_of_pending hc]
    have henter : (up.next s).enter.Yields base start _ :=
      ⟨h.unfailing.enter h.traverses h.begins, h.traverses.enter h.begins⟩
    refine henter.bind fun found c' hc' => ?_
    rcases hc' with ⟨rfl, j, q, hc', -⟩ | ⟨rfl, hc', -⟩
    · exact .frame_bind (.pure ⟨_, .walking hc'⟩)
    · exact .pure ⟨_, .walking hc'⟩
  | nodeSet =>
    by_cases hposition : c.frame.position = 0
    · refine hleads ((h.nodeSet hc hposition).bind fun _ c' hc' => .pure ?_)
      rw [hc'.2]
      exact ⟨_, .walking h.begins⟩
    · have hrefused : ((up.next s).perform .nodeSet).runOn c st = (.error .concurrentIteration, c, st) := by
        rw [Motion.perform, Walk.runOn_bind, Motion.runOn_nodeSet_of_position hposition]
      rw [hrefused]
      exact ⟨.refl hst.sound, l, hc⟩

/-- **Every sequence of operations** does. -/
theorem Roams.of_reaches (h : Roams base s up all stands sets start) (hst : base.Extends st)
    (hreaches : (up.next s).Reaches start st c st') :
    base.Extends st' ∧ ∃ l, Pending all stands sets start l c := by
  induction hreaches with
  | start => exact ⟨hst, _, .walking h.begins⟩
  | perform op _ ih =>
    obtain ⟨hext, l, hc⟩ := ih
    obtain ⟨hext', hc'⟩ := h.perform hc hext op
    exact ⟨hext.trans hext', hc'⟩

/-! ## §C  Chains of stages roam -/

/-- Cursors that are sure of their moves traverse the sets. -/
theorem Surefooted.traverses {stands' : Cursor → Place → Prop} (h : Surefooted base (up.next s) stands sets)
    (ht : Traverses base (up.next s) stands' sets) (hstands : ∀ {c p}, stands c p → stands' c p) :
    Traverses base (up.next s) stands sets where
  natural := ht.natural
  settled hc := ht.settled (hstands hc)
  faces hc := ht.faces (hstands hc)
  unsorted hc := ht.unsorted (hstands hc)
  order hc hc' := ht.order (hstands hc) (hstands hc')
  rewound := h.rewound
  nextSet hc := (h.nextSet hc).ensures
  nextNode hc := (h.nextNode hc).ensures
  setPosition {c j i} hc k := by
    have hplace : ∃ k', (Place.within j i).goTo sets k = .within j k' := by
      unfold Place.goTo
      split
      · exact ⟨0, rfl⟩
      · exact ⟨_, rfl⟩
    obtain ⟨k', hk'⟩ := hplace
    refine ((h.moveTo hc k).ensures.and (ht.setPosition (hstands hc) k)).mono fun found c' hc' => ?_
    obtain ⟨⟨hplaced, hfound⟩, k'', -, hcount, -⟩ := hc'
    rw [hk'] at hplaced hfound
    exact ⟨k', hplaced, hcount, fun hf => eq_of_beq (hfound.symm.trans hf)⟩
  current {c j i} hc q hq := by
    have hposition : (Place.within j (i + 1)).position ≠ 0 := Nat.succ_ne_zero i
    refine ((h.nodeHere hc).ensures.and (ht.current (hstands hc) q hq)).mono fun p? c' hc' => ?_
    rw [if_neg hposition] at hc'
    exact ⟨hc'.1.1, hc'.2.2⟩

/-- Nor do their moves fail. -/
theorem Surefooted.unfailing (h : Surefooted base (up.next s) stands sets) (hsets : sets.length < Walk.limit) :
    Unfailing base (up.next s) stands sets where
  nextSet hc := (h.nextSet hc).works
  nextNode hc := (h.nextNode hc).works
  setPosition hc k := (h.moveTo hc k).works
  current hc _ := (h.nodeHere hc).works
  short := ⟨hsets, h.short⟩

/-- Where nodes are delivered in no order, up to the end, they can be pulled, and there is a round left. -/
theorem Traverses.collect_pull_answers (h : Traverses base m stands sets)
    (ho : ∀ {c p}, stands c p → c.order = .unordered) {times : Nat} {taken : List Pointer}
    (hc : LeftOf stands sets l c) (hst : base.Extends st) (hrun : (Walk.collect m.deliver times taken).Answers c st)
    (taken' : List Pointer) : (Walk.collect m.pull (times + 1) taken').Answers c st := by
  induction times generalizing l c st taken taken' with
  | zero =>
    obtain ⟨_, _, _, hrun⟩ := hrun
    cases hrun
  | succ times ih =>
    obtain ⟨_, _, _, hrun⟩ := hrun
    obtain ⟨p?, c₁, st₁, hdeliver, hrest⟩ := Walk.of_runOn_bind hrun
    obtain ⟨p, hp, -⟩ := id hc
    rw [m.runOn_deliver_of_unordered (h.unsorted hp) (ho hp)] at hdeliver
    obtain ⟨hext, -, hc₁⟩ := h.pull hc st hst _ _ _ hdeliver
    refine Walk.Answers.bind_run hdeliver ?_
    cases p? with
    | none => exact ⟨_, _, _, rfl⟩
    | some p => exact ih hc₁ (hst.trans hext) ⟨_, _, _, hrest⟩ _

/-- **What has been delivered up to the end can be drained.** -/
theorem Traverses.drain_answers (h : Traverses base m stands sets) (hc : stands c .before) (hst : base.Extends st)
    {nodes : List Pointer} (hrun : m.deliverRest.runOn c st = (.ok (nodes, none), c', st')) : m.drain.Answers c st := by
  by_cases ho : c.order = .unordered
  · obtain ⟨times, htimes⟩ : ∃ n, Walk.limit = n + 1 := Nat.exists_eq_succ_of_ne_zero (by decide)
    have hcollect := Motion.runOn_deliverUpTo hrun
    rw [htimes, Walk.collect] at hcollect
    -- The first node that is delivered is the one that the cursor enters its sets with.
    obtain ⟨p?, c₁, st₁, hdeliver, hrest⟩ := Walk.of_runOn_bind hcollect
    rw [m.runOn_deliver_of_unordered (h.unsorted hc) ho] at hdeliver
    obtain ⟨found, c₂, st₂, hadvance, hcurrent⟩ := Walk.of_runOn_bind hdeliver
    rw [Motion.advance_eq, Walk.runOn_frame_bind, (h.faces hc).2.1] at hadvance
    have henter : m.enter.runOn c st = (.ok found, c₂, st₂) := hadvance
    obtain ⟨hext, hentered⟩ := h.enter hc st hst _ _ _ henter
    refine Walk.Answers.bind_run henter ?_
    rcases hentered with ⟨rfl, j, q, hc₂, hq, -⟩ | ⟨rfl, -, -⟩
    · have hnode : c₂.frame.current = some q := (h.faces hc₂).2.2.2.trans hq
      have hfound : Walk.runOn (do pure (← Walk.frame).current : Walk (Option Pointer)) c₂ st₂ = (.ok (some q), c₂, st₂) := by
        rw [Walk.runOn_frame_bind, hnode]
        rfl
      cases hfound.symm.trans hcurrent
      obtain ⟨_, _, _, hpull⟩ := h.collect_pull_answers (fun hd => ((h.order hd hc).1).trans ho)
        ⟨.within j 1, hc₂, .within j 0, rfl⟩ (hst.trans hext) ⟨_, _, _, hrest⟩ []
      rw [← htimes] at hpull
      exact Walk.Answers.bind_run (Walk.runOn_frame _ _) (Walk.Answers.bind_run hpull ⟨_, _, _, rfl⟩)
    · exact ⟨_, _, _, rfl⟩
  · exact m.drain_answers (h.unsorted hc) ho (Motion.deliver_answers (Motion.runOn_deliverUpTo hrun))

/-- A cursor that has delivered all its nodes had not too many. -/
theorem Traverses.of_deliverRest (h : Traverses base m stands sets) (hg : Charted base s all)
    (hsets : ∀ p ∈ sets.flatten, p ∈ all) (hc : stands c .before) (hst : base.Extends st) {nodes : List Pointer}
    (hfresh : (m.deliverRest.runOn c st).1 = .ok (nodes, none)) :
    nodes = arranged all c.order sets.flatten ∧ sets.flatten.length ≤ Walk.limit ∧
      (arranged all c.order sets.flatten).length < Walk.limit := by
  rcases hrun : m.deliverRest.runOn c st with ⟨r, c', st'⟩
  rw [hrun] at hfresh
  obtain rfl : r = .ok (nodes, none) := hfresh
  obtain ⟨-, hnodes, hlength⟩ := h.deliverAll hg hsets hc st hst _ _ _ (Motion.runOn_deliverUpTo hrun)
  obtain ⟨drained, c₁, st₁, hdrain⟩ := h.drain_answers hc hst hrun
  exact ⟨hnodes, (h.drain hc st hst _ _ _ hdrain).2.2.2, hlength⟩

/-- **A cursor over known nodes roams.** -/
theorem roams_known {first : Stage} {nodes : List Pointer} (hg : Charted base s all) (hknows : first.knows = some nodes)
    (halike : ∀ w, base.Extends w.base → first.Alike w first) (hnodes : ∀ p ∈ nodes, p ∈ all)
    (hlimit : nodes.length < Walk.limit)
    (hshort : (arranged all (Cursor.knowing first nodes .notStarted 0).order nodes).length < Walk.limit) :
    Roams base s .still all (StandsBy (KnowsAt first) [nodes]) [nodes] (.knowing first nodes .notStarted 0) := by
  have hsupplies : Supplies base s .still (KnowsAt first) [nodes] :=
    supplies_known hknows halike fun p hp w hw => hg.realm.alike (hnodes p hp) hw
  have hflatten : [nodes].flatten = nodes := by simp
  -- A knowing cursor is at a place of its one set, or over; to a position behind the last node it goes as well.
  have hpending : ∀ progress k, (progress = .notStarted → k = 0) →
      ∃ l, Pending all (StandsBy (KnowsAt first) [nodes]) [nodes] (.knowing first nodes .notStarted 0) l
        (.knowing first nodes progress k) := by
    intro progress k hk
    cases progress with
    | notStarted =>
      obtain rfl := hk rfl
      exact ⟨_, .walking (standsBy_knowsAt_iff.mpr ⟨rfl, fun _ _ he => nomatch he⟩ : StandsBy _ _ _ .before)⟩
    | inSet => exact ⟨_, .walking (standsBy_knowsAt_iff.mpr ⟨rfl, by rintro _ _ ⟨⟩; rfl⟩ : StandsBy _ _ _ (.within 0 k))⟩
    | exhausted =>
      exact ⟨_, .finished ⟨rfl, restarted_knowing hknows, fun _ => ⟨nodes, hknows⟩⟩ (show 0 < Walk.limit by decide)⟩
  have hnotStarted : ∀ p : Place, p.progress = .notStarted → p.position = 0 := fun p hp => by
    cases p <;> first | rfl | cases hp
  exact {
    traverses := hsupplies.traverses fun w hw => (hg.grounded.natural w hw).alike
    unfailing := (suppliesSafely_known hknows hlimit).unfailing hsupplies
    restarted := fun hc => by
      rw [(standsBy_knowsAt_iff.mp hc).1]
      exact restarted_knowing hknows
    begins := standsBy_knowsAt_iff.mpr ⟨rfl, fun _ _ he => nomatch he⟩
    setPosition := by
      intro c p hc k
      rw [(standsBy_knowsAt_iff.mp hc).1]
      refine .of_runOn (fun st => runOn_setPosition_knowing s hknows k) (hpending _ _ fun he => ?_)
      by_cases hk : k = 0
      · exact hk
      · rw [if_neg hk] at he
        cases hp : p.progress <;> rw [hp] at he <;> cases he
    current := by
      intro c p hc
      rw [(standsBy_knowsAt_iff.mp hc).1]
      obtain ⟨p?, progress', k', hmoved, hrun⟩ := exists_current_knowing s hknows p.progress p.position
      refine .of_runOn hrun (hpending _ _ fun he => ?_)
      rcases hmoved with ⟨rfl, rfl⟩ | ⟨rfl, -⟩
      · exact hnotStarted p he
      · cases hp : p.progress <;> rw [hp] at he <;> cases he
    listSet := by
      intro c p hc
      obtain ⟨rfl, hset⟩ := standsBy_knowsAt_iff.mp hc
      refine .of_runOn (fun st => runOn_listSet_knowing s hknows hlimit (hnotStarted p)) ?_
      cases p with
      | before => exact standsBy_knowsAt_iff.mpr ⟨rfl, by rintro _ _ ⟨⟩; rfl⟩
      | within j i => exact standsBy_knowsAt_iff.mpr ⟨rfl, hset⟩
      | after => exact standsBy_knowsAt_iff.mpr ⟨rfl, hset⟩
    charted := hg
    among := by rwa [hflatten]
    short := by
      rw [hflatten]
      exact ⟨hlimit.le, hshort⟩ }

end

/-- **Unerring** says that a cursor goes through all sets without an error, and delivers these nodes. -/
structure Cursor.Unerring (c : Cursor) (s : Surroundings) (st : Store) (nodes : List Pointer) : Prop where
  traversed : ((c.motion s).traversal.runOn c st).1.isOk = true
  delivered : ((c.motion s).deliverRest.runOn c st).1 = .ok (nodes, none)

section

variable {st st₀ st₁ : Store} {root : Pointer} {c : Context} {host : Host} {first : Stage} {known nodes : List Pointer}
  {later : List LaterStage} {cur : Cursor}

/-- A chain without a later stage knows its nodes, and roams over them when it is unerring; -/
theorem Stage.StartsIn.roams_first (hfirst : first.StartsIn st root known) (hroot : IsDocument st root)
    (hc : c.Settled host st) (h : (Cursor.chain first []).Unerring (c.surroundings host) st nodes) :
    ∃ stands, Roams st (c.surroundings host) .still (root.listing st) stands [known] (.chain first []) ∧
      nodes = arranged (root.listing st) (Cursor.chain first []).order [known].flatten := by
  have hs := hc.grounded
  have hg := hroot.charted hs
  have halike := hfirst.alike hg.realm
  have hlimit : known.length < Walk.limit := Nat.lt_of_le_of_lt hfirst.narrow Number.exactBound_lt_limit
  have hsupplies : Supplies st (c.surroundings host) .still (KnowsAt first) [known] :=
    supplies_known hfirst.knows halike fun p hp w hw => hg.realm.alike (hfirst.among p hp) hw
  have hflatten : [known].flatten = known := by simp
  have hbegins : StandsBy (KnowsAt first) [known] (.knowing first known .notStarted 0) .before :=
    standsBy_knowsAt_iff.mpr ⟨rfl, fun _ _ he => nomatch he⟩
  obtain ⟨heq, -, hshort⟩ := (hsupplies.traverses fun w hw => (hs.natural w hw).alike).of_deliverRest hg
    (by rw [hflatten]; exact hfirst.among) hbegins (.refl hs.sound) h.delivered
  rw [hflatten] at hshort
  exact ⟨_, roams_known hg hfirst.knows halike hfirst.among hlimit hshort, heq⟩

/-- every other one has a last stage that is sure of its moves. -/
theorem Stage.StartsIn.roams_concat {earlier : List LaterStage} {l : LaterStage} (hfirst : first.StartsIn st root known)
    (hroot : IsDocument st root) (hc : c.Settled host st)
    (h : (Cursor.chain first (earlier.concat l)).Unerring (c.surroundings host) st nodes) :
    ∃ stands sets, Roams st (c.surroundings host)
        (.ofLength (c.surroundings host) (Cursor.chain first (earlier.concat l)).earlier.length) (root.listing st) stands
        sets (.chain first (earlier.concat l)) ∧
      nodes = arranged (root.listing st) (Cursor.chain first (earlier.concat l)).order sets.flatten := by
  have hs := hc.grounded
  have hg := hroot.charted hs
  obtain ⟨sets', hchain⟩ := hfirst.goesBack hroot hc (earlier.concat l)
  rw [Cursor.chain_concat] at h hchain ⊢
  rcases hfresh : ((((Cursor.chain first earlier).push l.stage).motion (c.surroundings host)).traversal.runOn
      ((Cursor.chain first earlier).push l.stage) st).1 with e | lists
  · have htraversed := h.traversed
    rw [hfresh] at htraversed
    cases htraversed
  obtain ⟨rfl, hsets, stands, htraverses, hretraces, hsure, hassured⟩ :=
    hchain.surefooted_of_traversal hs (.refl hs.sound) hfresh
  have hamong : ∀ p ∈ lists.flatten, p ∈ root.listing st := fun p hp => hchain.delivers.covers.mem_flatten hp
  obtain ⟨heq, hshort⟩ := htraverses.of_deliverRest hg hamong hassured.stands (.refl hs.sound) h.delivered
  exact ⟨_, lists, {
    traverses := hsure.traverses htraverses fun hd => hd.stands
    unfailing := hsure.unfailing hsets
    restarted := fun hd => hretraces.restarted hd.stands
    begins := hassured
    setPosition := fun hd k => (hsure.moveTo hd k).mono fun _ _ hd' => ⟨_, .walking hd'.1⟩
    current := fun hd => (hsure.nodeHere hd).mono fun _ _ hd' => ⟨_, .walking hd'.1⟩
    listSet := fun hd => (hsure.listSet hd).mono fun _ _ hd' => hd'.2
    charted := hg
    among := hamong
    short := hshort }, heq⟩

/-- **A chain of stages roams** when it is unerring. -/
theorem Stage.StartsIn.roams (hfirst : first.StartsIn st root known) (hroot : IsDocument st root) (hc : c.Settled host st)
    (h : (Cursor.chain first later).Unerring (c.surroundings host) st nodes) :
    ∃ stands sets, Roams st (c.surroundings host)
        (.ofLength (c.surroundings host) (Cursor.chain first later).earlier.length) (root.listing st) stands sets
        (.chain first later) ∧
      nodes = Place.before.toDeliver (root.listing st) (Cursor.chain first later).order sets := by
  have hdeliver : ∀ order sets, arranged (root.listing st) order sets.flatten =
      Place.before.toDeliver (root.listing st) order sets := by
    intro order sets
    cases order <;> rfl
  rcases List.eq_nil_or_concat later with rfl | ⟨earlier, l, rfl⟩
  · obtain ⟨stands, hroams, heq⟩ := hfirst.roams_first hroot hc h
    exact ⟨stands, [known], hroams, heq.trans (hdeliver _ _)⟩
  · obtain ⟨stands, sets, hroams, heq⟩ := hfirst.roams_concat hroot hc h
    exact ⟨stands, sets, hroams, heq.trans (hdeliver _ _)⟩

/-! ## §D  All nodes of a chain -/

/-- **All nodes are not always all.** Whatever operations a chain of stages has gone through, taking all its nodes is
refused at a position, and changes nothing. At no position it succeeds and leaves the chain as it was at the start, from
where all its nodes can be delivered again. But it takes only those that the chain would deliver from here on, and none
at all while the chain holds a list of sorted nodes. Only a chain that has not started is sure to give all its nodes. -/
theorem nodeSet_of_reaches (hroot : IsDocument st root) (hc : c.Settled host st) (hfirst : first.StartsIn st root known)
    (h : (Cursor.chain first later).Unerring (c.surroundings host) st nodes) (hst : st.Extends st₀)
    (hreaches : ((Cursor.chain first later).motion (c.surroundings host)).Reaches (.chain first later) st₀ cur st₁) :
    (cur.frame.position ≠ 0 →
      ((Cursor.chain first later).motion (c.surroundings host)).nodeSet.runOn cur st₁ =
        (.error .concurrentIteration, cur, st₁)) ∧
    (cur.frame.position = 0 → ∃ taken rest st₂,
      ((Cursor.chain first later).motion (c.surroundings host)).nodeSet.runOn cur st₁ =
        (.ok taken, .chain first later, st₂) ∧
      (((Cursor.chain first later).motion (c.surroundings host)).deliverRest.runOn cur st₁).1 = .ok (rest, none) ∧
      taken = (if cur.frame.sorted = none then rest else []) ∧
      (cur.frame.progress = .notStarted → taken = nodes) ∧
      (((Cursor.chain first later).motion (c.surroundings host)).deliverRest.runOn (.chain first later) st₂).1 =
        .ok (nodes, none)) := by
  obtain ⟨stands, sets, hroams, rfl⟩ := hfirst.roams hroot hc h
  obtain ⟨hext, l, hpending⟩ := hroams.of_reaches hst hreaches
  refine ⟨fun hposition => Motion.runOn_nodeSet_of_position hposition, fun hposition => ?_⟩
  obtain ⟨taken, d, st₂, htaken, hext₂, rfl, rfl⟩ := (hroams.nodeSet hpending hposition).runOn hext
  obtain ⟨_, _, _, hrest, -, rfl⟩ := (hroams.deliverRest hpending).runOn hext
  obtain ⟨_, _, _, hagain, -, rfl⟩ := (hroams.deliverRest (.walking hroams.begins)).runOn (hext.trans hext₂)
  refine ⟨_, l, st₂, htaken, congrArg Prod.fst hrest, rfl, fun hprogress => ?_, congrArg Prod.fst hagain⟩
  -- A cursor that has not started stands before all sets, with everything still to deliver.
  cases hpending with
  | finished hover => cases hover.exhausted.symm.trans hprogress
  | @walking _ p hplaced =>
    rw [if_pos (hroams.traverses.unsorted hplaced)]
    have hfaces := hroams.traverses.faces hplaced
    cases p with
    | before => rfl
    | within j i => cases hfaces.1.symm.trans hprogress
    | after => cases hfaces.1.symm.trans hprogress

/-- The members of the two objects, set after set. -/
def membersOfTwins : List LaterStage := [.along .child (.name (.plain "a")), .along .child (.name (.plain "b"))]

/-- All members of that name, in document order. -/
def membersBelow : List LaterStage := [.along .descendantOrSelf (.type .node), .along .child (.name (.plain "b"))]

/-- A cursor at the top of the twins, and how it moves. -/
def atTwins (later : List LaterStage) : Cursor := .chain (.start .firstTop none) later

def twinMotion (later : List LaterStage) : Motion := (atTwins later).motion (Context.atTop.surroundings stockHost)

/-- The paths of nodes of the twins. -/
def twinPaths (nodes : List Pointer) : List String := nodes.map (·.pathText (.holding twinDocument))

/-- What a walk over the twins comes to, from the start. -/
def onTwins {α : Type} (later : List LaterStage) (m : Motion → Walk α) : Except EvalError α × Cursor × Store :=
  (m (twinMotion later)).runOn (atTwins later) (.holding twinDocument)

/-- Where one operation leads to. -/
def behind (later : List LaterStage) (op : Operation) : Cursor × Store := (onTwins later (·.perform op)).2

/-- What is delivered, when no error comes up. -/
def delivered? : Except EvalError (List Pointer × Option EvalError) → Option (List Pointer)
  | .ok (nodes, none) => some nodes
  | _ => none

theorem of_delivered? {delivered : Except EvalError (List Pointer × Option EvalError)} {paths : List String}
    (h : (delivered? delivered).map twinPaths = some paths) :
    ∃ nodes, twinPaths nodes = paths ∧ delivered = .ok (nodes, none) := by
  obtain ⟨nodes, hnodes, hpaths⟩ := Option.map_eq_some_iff.mp h
  refine ⟨nodes, hpaths, ?_⟩
  unfold delivered? at hnodes
  split at hnodes
  · cases hnodes
    rfl
  · cases hnodes

theorem unerring_twins (later : List LaterStage) {paths : List String} (htraversed : (onTwins later (·.traversal)).1.isOk = true)
    (hdelivered : (delivered? (onTwins later (·.deliverRest)).1).map twinPaths = some paths) :
    ∃ nodes, twinPaths nodes = paths ∧
      (atTwins later).Unerring (Context.atTop.surroundings stockHost) (.holding twinDocument) nodes := by
  obtain ⟨nodes, hpaths, hnodes⟩ := of_delivered? hdelivered
  exact ⟨nodes, hpaths, htraversed, hnodes⟩

/-- Both members are delivered, whichever way the chain comes to them. -/
theorem bothOfTwins : (delivered? (onTwins membersOfTwins (·.deliverRest)).1).map twinPaths =
    some ["/a[1]/b", "/a[2]/b"] := by decide +kernel

theorem bothBelow : (delivered? (onTwins membersBelow (·.deliverRest)).1).map twinPaths =
    some ["/a[1]/b", "/a[2]/b"] := by decide +kernel

/-- In the first set, before its node, all nodes are those of the second set; at the node they are refused. -/
theorem nodeSet_of_reaches_twins :
    ∃ nodes taken, twinPaths nodes = ["/a[1]/b", "/a[2]/b"] ∧ twinPaths taken = ["/a[2]/b"] ∧
      (atTwins membersOfTwins).Unerring (Context.atTop.surroundings stockHost) (.holding twinDocument) nodes ∧
      ((twinMotion membersOfTwins).nodeSet.runOn (behind membersOfTwins (.make .nextSet)).1
        (behind membersOfTwins (.make .nextSet)).2).1 = .ok taken ∧
      (twinMotion membersOfTwins).nodeSet.runOn (behind membersOfTwins (.make .nextNode)).1
          (behind membersOfTwins (.make .nextNode)).2 =
        (.error .concurrentIteration, behind membersOfTwins (.make .nextNode)) := by
  obtain ⟨nodes, hpaths, hunerring⟩ :=
    unerring_twins membersOfTwins (by decide +kernel) bothOfTwins
  have hc := Context.settled_atTop twinDocument
  have hfirst := startsIn_firstTop twinDocument
  obtain ⟨-, hbefore⟩ := nodeSet_of_reaches isDocument_twin hc hfirst hunerring (.refl hc.sound)
    (.perform (.make .nextSet) .start)
  obtain ⟨hat, -⟩ := nodeSet_of_reaches isDocument_twin hc hfirst hunerring (.refl hc.sound)
    (.perform (.make .nextNode) .start)
  obtain ⟨taken, rest, st₂, htaken, -⟩ := hbefore (by decide +kernel)
  refine ⟨nodes, taken, hpaths, ?_, hunerring, congrArg Prod.fst htaken, hat (by decide +kernel)⟩
  have hpaths' : ((twinMotion membersOfTwins).nodeSet.runOn (behind membersOfTwins (.make .nextSet)).1
      (behind membersOfTwins (.make .nextSet)).2).1.toOption.map twinPaths = some ["/a[2]/b"] := by decide +kernel
  exact Option.some.inj ((congrArg (fun run => run.1.toOption.map twinPaths) htaken).symm.trans hpaths')

/-- **Some nodes may be taken for all.** When the first of two members is delivered in document order, the chain holds
the other one in its list. Then taking all nodes is not refused, and takes none. -/
theorem nodeSet_behind_deliver :
    ∃ nodes, twinPaths nodes = ["/a[1]/b", "/a[2]/b"] ∧
      (atTwins membersBelow).Unerring (Context.atTop.surroundings stockHost) (.holding twinDocument) nodes ∧
      (twinMotion membersBelow).Reaches (atTwins membersBelow) (.holding twinDocument)
        (behind membersBelow .deliver).1 (behind membersBelow .deliver).2 ∧
      ((twinMotion membersBelow).nodeSet.runOn (behind membersBelow .deliver).1 (behind membersBelow .deliver).2).1 =
        .ok [] := by
  obtain ⟨nodes, hpaths, hunerring⟩ :=
    unerring_twins membersBelow (by decide +kernel) bothBelow
  refine ⟨nodes, hpaths, hunerring, .perform .deliver .start, ?_⟩
  have hnone : ((twinMotion membersBelow).nodeSet.runOn (behind membersBelow .deliver).1
      (behind membersBelow .deliver).2).1.toOption.map List.isEmpty = some true := by decide +kernel
  generalize ((twinMotion membersBelow).nodeSet.runOn _ _).1 = taken at hnone ⊢
  match taken, hnone with
  | .ok [], _ => rfl

/-! ## §E  The list of the set -/

/-- **Listing the set keeps what is still delivered**, and the position, whatever operations a chain of stages has gone
through, if it has started. A chain that has not started enters its first set, and what it delivers then is what is
delivered behind that set. -/
theorem listSet_of_reaches (hroot : IsDocument st root) (hc : c.Settled host st) (hfirst : first.StartsIn st root known)
    (h : (Cursor.chain first later).Unerring (c.surroundings host) st nodes) (hst : st.Extends st₀)
    (hreaches : ((Cursor.chain first later).motion (c.surroundings host)).Reaches (.chain first later) st₀ cur st₁) :
    ∃ listed cur' st₂ rest,
      ((Cursor.chain first later).motion (c.surroundings host)).listSet.runOn cur st₁ = (.ok listed, cur', st₂) ∧
      cur'.frame.position = cur.frame.position ∧
      (((Cursor.chain first later).motion (c.surroundings host)).deliverRest.runOn cur' st₂).1 = .ok (rest, none) ∧
      (cur.frame.progress ≠ .notStarted →
        (((Cursor.chain first later).motion (c.surroundings host)).deliverRest.runOn cur st₁).1 = .ok (rest, none)) ∧
      (cur.frame.progress = .notStarted → ∃ found entered st₃,
        ((Cursor.chain first later).motion (c.surroundings host)).nextSet.runOn cur st₁ = (.ok found, entered, st₃) ∧
        (((Cursor.chain first later).motion (c.surroundings host)).deliverRest.runOn entered st₃).1 =
          .ok (rest, none)) := by
  obtain ⟨stands, sets, hroams, rfl⟩ := hfirst.roams hroot hc h
  obtain ⟨hext, l, hpending⟩ := hroams.of_reaches hst hreaches
  obtain ⟨listed, cur', st₂, hlisted, hext₂, hposition, hpending'⟩ := (hroams.listing hpending).runOn hext
  obtain ⟨_, _, _, hrest, -, rfl⟩ := (hroams.deliverRest hpending').runOn (hext.trans hext₂)
  refine ⟨listed, cur', st₂, _, hlisted, hposition, congrArg Prod.fst hrest, fun hprogress => ?_, fun hprogress => ?_⟩
  · obtain ⟨_, _, _, hbefore, -, rfl⟩ := (hroams.deliverRest hpending).runOn hext
    rw [if_neg hprogress]
    exact congrArg Prod.fst hbefore
  · rw [if_pos hprogress]
    -- Listing enters the first set, just as going on to the next set does.
    cases hpending with
    | finished hover => cases hover.exhausted.symm.trans hprogress
    | @walking _ p hplaced =>
      have hfaces := hroams.traverses.faces hplaced
      cases p with
      | within j i => cases hfaces.1.symm.trans hprogress
      | after => cases hfaces.1.symm.trans hprogress
      | before =>
        obtain ⟨found, entered, st₃, hnext, hext₃, hentered, -⟩ :=
          (⟨hroams.unfailing.nextSet hplaced, hroams.traverses.nextSet hplaced⟩ :
            Walk.Yields st (Motion.nextSet _) cur _).runOn hext
        obtain ⟨_, _, _, hbehind, -, rfl⟩ := (hroams.deliverRest (.walking hentered)).runOn (hext.trans hext₃)
        exact ⟨found, entered, st₃, hnext, congrArg Prod.fst hbehind⟩

/-- At the first member, listing its set changes nothing: the second one is still delivered. -/
theorem listSet_of_reaches_twins :
    ∃ cur' st₂ rest, twinPaths rest = ["/a[2]/b"] ∧
      ((twinMotion membersOfTwins).listSet.runOn (behind membersOfTwins (.make .nextNode)).1
        (behind membersOfTwins (.make .nextNode)).2).2 = (cur', st₂) ∧
      cur'.frame.position = 1 ∧
      ((twinMotion membersOfTwins).deliverRest.runOn cur' st₂).1 = .ok (rest, none) ∧
      ((twinMotion membersOfTwins).deliverRest.runOn (behind membersOfTwins (.make .nextNode)).1
        (behind membersOfTwins (.make .nextNode)).2).1 = .ok (rest, none) := by
  obtain ⟨nodes, -, hunerring⟩ :=
    unerring_twins membersOfTwins (by decide +kernel) bothOfTwins
  have hc := Context.settled_atTop twinDocument
  obtain ⟨listed, cur', st₂, rest, hlisted, hposition, hafter, hbefore, -⟩ :=
    listSet_of_reaches isDocument_twin hc (startsIn_firstTop twinDocument) hunerring (.refl hc.sound)
      (.perform (.make .nextNode) .start)
  have hrest := hbefore (by decide +kernel)
  have hpaths : (delivered? ((twinMotion membersOfTwins).deliverRest.runOn (behind membersOfTwins (.make .nextNode)).1
      (behind membersOfTwins (.make .nextNode)).2).1).map twinPaths = some ["/a[2]/b"] := by decide +kernel
  obtain ⟨rest', hpaths, hrest'⟩ := of_delivered? hpaths
  cases hrest.symm.trans hrest'
  exact ⟨cur', st₂, rest, hpaths, congrArg Prod.snd hlisted, hposition.trans (by decide +kernel), hafter, hrest⟩

/-- **A chain that has not started does not keep them.** Listing its set enters the first one, and the member in it is
delivered no more. -/
theorem listSet_at_start :
    ∃ nodes rest, twinPaths nodes = ["/a[1]/b", "/a[2]/b"] ∧ twinPaths rest = ["/a[2]/b"] ∧
      (atTwins membersOfTwins).Unerring (Context.atTop.surroundings stockHost) (.holding twinDocument) nodes ∧
      ((twinMotion membersOfTwins).deliverRest.runOn (behind membersOfTwins (.make .listSet)).1
        (behind membersOfTwins (.make .listSet)).2).1 = .ok (rest, none) := by
  obtain ⟨nodes, hpaths, hunerring⟩ :=
    unerring_twins membersOfTwins (by decide +kernel) bothOfTwins
  have hpaths' : (delivered? ((twinMotion membersOfTwins).deliverRest.runOn (behind membersOfTwins (.make .listSet)).1
      (behind membersOfTwins (.make .listSet)).2).1).map twinPaths = some ["/a[2]/b"] := by decide +kernel
  obtain ⟨rest, hpaths', hrest⟩ := of_delivered? hpaths'
  exact ⟨nodes, rest, hpaths, hpaths', hunerring, hrest⟩

end

end NodePath
