/-
# NodePath.Proofs.Pulling — what a cursor delivers

A cursor that traverses sets delivers the nodes of these sets one after the other, or all of them in document
order. The sets of the cursor of a path follow from those of its start, stage after stage, and are in the end what
the path means.

* §A  Pulling across sets.
* §B  Delivery in document order.
* §C  Delivery.
* §D  `Cursor.Delivers`, and what delivers after one more stage.
* §E  Paths.
-/
import NodePath.Proofs.Sorting
import NodePath.Proofs.Stages

namespace NodePath

/-! ## §A  Pulling -/

/-- Going on is going to the next origin: the position says whether the cursor is at a node. -/
theorem Motion.advance_eq (m : Motion) : m.advance = (do m.nextOrigin ((← Walk.frame).position != 0)) := rfl

section

variable {base : Store} {m : Motion} {stands : Cursor → Place → Prop} {sets : List (List Pointer)} {c : Cursor}
  {p : Place}

theorem Place.AtNode.before : Place.before.AtNode := by
  rintro _ _ he
  cases he

theorem Place.AtNode.after : Place.after.AtNode := by
  rintro _ _ he
  cases he

theorem Place.AtNode.within (j i : Nat) : (Place.within j (i + 1)).AtNode := by
  rintro _ _ he
  cases he
  exact Nat.succ_pos i

theorem Frame.Faces.position {f : Frame} (h : f.Faces sets p) (hp : p.AtNode) :
    (f.position != 0) = p.isWithin := by
  cases p with
  | before => simp [h.2.1, Place.isWithin]
  | after => simp [h.2.1, Place.isWithin]
  | within j i =>
    have hi := hp j i rfl
    rw [h.2.1]
    simp only [Place.isWithin, bne_iff_ne, ne_eq]
    omega

/-- **LeftOf** says that a cursor that is asked for one node after the other has these nodes left. -/
def LeftOf (stands : Cursor → Place → Prop) (sets : List (List Pointer)) (l : List Pointer) (c : Cursor) : Prop :=
  ∃ p, stands c p ∧ p.AtNode ∧ p.rest sets = l

/-- Going on from a node, or from before or behind everything, takes the first of the nodes that are left. -/
theorem Traverses.advance (h : Traverses base m stands sets) (hc : stands c p) (hp : p.AtNode) :
    m.advance.Ensures base c fun found c' =>
      (found = true ∧ ∃ j i q, stands c' (.within j (i + 1)) ∧ (nthSet sets j)[i]? = some q ∧
        p.rest sets = q :: Place.rest sets (.within j (i + 1))) ∨
      (found = false ∧ stands c' .after ∧ p.rest sets = []) := by
  rw [Motion.advance_eq]
  refine .frame_bind ?_
  rw [(h.faces hc).position hp]
  exact h.nextOrigin hc hp

/-- **Pulling** takes the nodes that are left one by one. -/
theorem Traverses.pull (h : Traverses base m stands sets) {l : List Pointer} (hc : LeftOf stands sets l c) :
    m.pull.Ensures base c fun p? c' => p? = l.head? ∧ LeftOf stands sets l.tail c' := by
  obtain ⟨p, hc, hp, rfl⟩ := hc
  refine (h.advance hc hp).bind fun found c' hc' => ?_
  rcases hc' with ⟨rfl, j, i, q, hc', hq, hrest⟩ | ⟨rfl, hc', hrest⟩
  · refine .frame_bind (.pure ⟨?_, .within j (i + 1), hc', .within j i, by rw [hrest]; rfl⟩)
    rw [(h.faces hc').2.2.2, if_neg (Nat.succ_ne_zero i), hrest]
    exact hq
  · exact .pure ⟨by rw [hrest]; rfl, .after, hc', .after, by rw [hrest]; rfl⟩

/-- **Draining** a cursor that has not started takes all nodes. A repetition has a round for each of them. -/
theorem Traverses.drain (h : Traverses base m stands sets) (hc : stands c .before) :
    m.drain.Ensures base c fun nodes c' =>
      nodes = sets.flatten ∧ LeftOf stands sets [] c' ∧ sets.flatten.length ≤ Walk.limit := by
  refine (h.enter hc).bind fun found c' hc' => ?_
  rcases hc' with ⟨rfl, j, q, hc', hq, hlater⟩ | ⟨rfl, hc', hlater⟩
  · refine .frame_bind ?_
    have hcurrent : c'.frame.current = some q := by
      rw [(h.faces hc').2.2.2]
      exact hq
    have hlater : sets.flatten = q :: Place.rest sets (.within j 1) := hlater
    refine (Walk.Ensures.collectAll (fun l c => h.pull (c := c) (l := l)) ⟨.within j 1, hc', .within j 0, rfl⟩).bind
      fun nodes c'' hc'' => .pure ⟨?_, hc''.2.1, ?_⟩
    · rw [hcurrent, hc''.1, hlater]
      rfl
    · rw [hlater]
      exact hc''.2.2
  · have hlater : sets.flatten = [] := hlater
    exact .pure ⟨hlater.symm, ⟨.after, hc', .after, rfl⟩, by rw [hlater]; exact Nat.zero_le _⟩

/-! ## §B  Document order -/

/-- **arranged** are nodes in the order in which a cursor of that order delivers them: as they are, or those of
all nodes that are among them. -/
def arranged (all : List Pointer) (order : Order) (nodes : List Pointer) : List Pointer :=
  match order with
  | .unordered => nodes
  | .ascending => all.filter nodes.contains
  | .descending => (all.filter nodes.contains).reverse

/-- **Charted** says that a realm is known by a list of its nodes in document order. -/
structure Charted (base : Store) (s : Surroundings) (all : List Pointer) : Prop where
  grounded : Grounded base s
  realm : Realm base (· ∈ all)
  listing : Listing base all

variable {s : Surroundings} {all : List Pointer}

@[simp] theorem arranged_nil (all : List Pointer) (order : Order) : arranged all order [] = [] := by
  cases order <;> simp [arranged]

/-- What is arranged are the same nodes. -/
theorem Charted.mem_arranged {nodes : List Pointer} {order : Order} {q : Pointer} (h : Charted base s all)
    (hnodes : ∀ p ∈ nodes, p ∈ all) : q ∈ arranged all order nodes ↔ q ∈ nodes := by
  have hfilter : q ∈ all.filter nodes.contains ↔ q ∈ nodes := h.listing.mem_filter_contains hnodes
  cases order with
  | unordered => exact Iff.rfl
  | ascending => exact hfilter
  | descending => exact List.mem_reverse.trans hfilter

/-- Document order is the same in every store that extends the base. -/
theorem Charted.listing_extend (h : Charted base s all) {st : Store} (hst : base.Extends st) : Listing st all where
  before := by
    refine h.listing.before.imp_of_mem fun {p q} hp hq hb => ?_
    have hbase : base.Extends (World.only base h.grounded.closed).base := .refl h.grounded.sound
    have hcompare : ∀ {p q}, p ∈ all → q ∈ all → p.compare? st q = p.compare? base q := fun hp hq =>
      ((h.grounded.holds hst).compare? (h.realm.alike hp hbase) (h.realm.alike hq hbase)).symm
    exact ⟨(hcompare hp hq).trans hb.1, (hcompare hq hp).trans hb.2⟩
  eq_of_beq := h.listing.eq_of_beq

/-- **Delivering** says that a cursor of an order has these nodes left to deliver: it pulls them, or holds them
sorted, or has not sorted them yet. -/
inductive Delivering (all : List Pointer) (order : Order) (stands : Cursor → Place → Prop)
    (sets : List (List Pointer)) : List Pointer → Cursor → Prop
  | pulled {l : List Pointer} {c : Cursor} : order = .unordered → LeftOf stands sets l c →
    Delivering all order stands sets l c
  | sorted {l : List Pointer} {c : Cursor} : c.frame.sorted = some l → Delivering all order stands sets l c
  | fresh {c : Cursor} : order ≠ .unordered → stands c .before →
    Delivering all order stands sets (arranged all order sets.flatten) c

/-- What is sorted is arranged. -/
theorem Charted.sortDistinct (hg : Charted base s all) {ps : List Pointer} (hps : ∀ p ∈ ps, p ∈ all) {order : Order}
    (horder : order ≠ .unordered) {st : Store} (hst : base.Extends st) :
    NodePath.sortDistinct st ps order = .ok (arranged all order ps) := by
  rw [(hg.listing_extend hst).sortDistinct hps]
  cases order with
  | unordered => exact absurd rfl horder
  | ascending => rfl
  | descending => rfl

theorem Charted.sorted_eq (hg : Charted base s all) {ps qs : List Pointer} (hps : ∀ p ∈ ps, p ∈ all) {order : Order}
    (horder : order ≠ .unordered) {st : Store} (hst : base.Extends st)
    (h : NodePath.sortDistinct st ps order = .ok qs) :
    qs = arranged all order ps :=
  (Except.ok.inj ((hg.sortDistinct hps horder hst).symm.trans h)).symm

theorem Traverses.sortedNodes (h : Traverses base m stands sets) (hg : Charted base s all)
    (hsets : ∀ p ∈ sets.flatten, p ∈ all) {order : Order}
    (horder : order ≠ .unordered) (hc : stands c .before) :
    (m.sortedNodes order).Ensures base c fun nodes _ => nodes = arranged all order sets.flatten := by
  refine (h.drain hc).bind fun nodes c' hc' => .store_bind fun st hst => .ofExcept fun nodes' hnodes => ?_
  obtain ⟨rfl, -⟩ := hc'
  exact hg.sorted_eq hsets horder hst hnodes

/-- **Preparing** sorts what has to be sorted. -/
theorem Traverses.prepare (h : Traverses base m stands sets) (hg : Charted base s all)
    (hsets : ∀ p ∈ sets.flatten, p ∈ all) {order : Order}
    (horder : ∀ {c p}, stands c p → c.order = order) {l : List Pointer} (hc : Delivering all order stands sets l c) :
    m.prepare.Ensures base c fun _ c' =>
      c'.frame.sorted = some l ∨ (c'.frame.sorted = none ∧ order = .unordered ∧ LeftOf stands sets l c') := by
  -- Only a cursor that has an order and no sorted nodes yet has to sort.
  refine .cursor_bind (.frame_bind (.ite (fun hneeded => ?_) fun hdone => ?_))
  · rw [Bool.and_eq_true] at hneeded
    cases hc with
    | pulled ho hc =>
      obtain ⟨p, hc, -⟩ := hc
      rw [horder hc, ho] at hneeded
      exact absurd hneeded.2 (by decide)
    | sorted hsorted =>
      rw [hsorted] at hneeded
      exact absurd hneeded.1 Bool.false_ne_true
    | fresh ho hc =>
      rw [horder hc]
      refine (h.sortedNodes hg hsets ho hc).attempt_bind (fun nodes c' hnodes => ?_) fun e c st => ?_
      · subst hnodes
        exact .modifyFrame (.inl rfl)
      · refine ⟨e, ?_⟩
        rw [Walk.runOn_bind, Walk.runOn_modifyFrame]
        rfl
  · cases hc with
    | pulled ho hc =>
      obtain ⟨p, hp, -⟩ := id hc
      exact .pure (.inr ⟨h.unsorted hp, ho, hc⟩)
    | sorted hsorted => exact .pure (.inl hsorted)
    | fresh ho hc =>
      refine absurd ?_ hdone
      rw [horder hc, h.unsorted hc]
      cases order with
      | unordered => exact absurd rfl ho
      | ascending => rfl
      | descending => rfl

/-! ## §C  Delivery -/

/-- A cursor that delivers in no order pulls its nodes. -/
theorem Motion.runOn_deliver_of_unordered (m : Motion) (hsorted : c.frame.sorted = none) (ho : c.order = .unordered)
    (st : Store) : m.deliver.runOn c st = m.pull.runOn c st := by
  have hdone : ¬(c.frame.sorted.isNone && c.order != .unordered) = true := by
    rw [ho]
    simp
  have hprepare : m.prepare.runOn c st = (.ok (), c, st) := by
    rw [Motion.prepare, Walk.runOn_cursor_bind, Walk.runOn_frame_bind, if_neg hdone]
    rfl
  rw [Motion.deliver, Walk.runOn_bind, hprepare]
  dsimp only
  rw [Walk.runOn_frame_bind, hsorted]

/-- **Delivering** takes the nodes that are left one by one. -/
theorem Traverses.deliver (h : Traverses base m stands sets) (hg : Charted base s all)
    (hsets : ∀ p ∈ sets.flatten, p ∈ all) {order : Order}
    (horder : ∀ {c p}, stands c p → c.order = order) {l : List Pointer} (hc : Delivering all order stands sets l c) :
    m.deliver.Ensures base c fun p? c' => p? = l.head? ∧ Delivering all order stands sets l.tail c' := by
  refine (h.prepare hg hsets horder hc).bind fun _ c' hc' => .frame_bind ?_
  rcases hc' with hsorted | ⟨hnone, ho, hleft⟩
  · rw [hsorted]
    refine (Walk.Ensures.modifyFrame (Q := fun _ c'' => c''.frame.sorted = some (l.drop 1)) rfl).bind
      fun _ c'' hc'' => .pure ⟨rfl, .sorted ?_⟩
    rw [hc'', List.drop_one]
  · rw [hnone]
    exact (h.pull hleft).mono fun p? c'' hc'' => ⟨hc''.1, .pulled ho hc''.2⟩

/-- What is left up to the first error, when there is none, is all that is left. -/
theorem Motion.runOn_deliverUpTo {times : Nat} {taken ps : List Pointer} {c c' : Cursor} {st st' : Store}
    (h : (m.deliverUpTo times taken).runOn c st = (.ok (ps, none), c', st')) :
    (Walk.collect m.deliver times taken).runOn c st = (.ok ps, c', st') := by
  -- Both loops take their rounds together; the one that stops at an error has met none.
  induction times generalizing taken c st with
  | zero =>
    rw [Motion.deliverUpTo, Walk.runOn_pure] at h
    cases h
  | succ times ih =>
    rw [Motion.deliverUpTo, Walk.runOn_bind, Walk.runOn_attempt] at h
    rw [Walk.collect, Walk.runOn_bind]
    rcases hd : m.deliver.runOn c st with ⟨r, c₁, st₁⟩
    rw [hd] at h
    cases r with
    | error e => cases h
    | ok p? =>
      cases p? with
      | some p => exact ih h
      | none => cases h; rfl

/-- **All that is delivered** are the nodes of the sets in the order of the cursor. There are fewer than a repetition
has rounds. -/
theorem Traverses.deliverAll (h : Traverses base m stands sets) (hg : Charted base s all)
    (hsets : ∀ p ∈ sets.flatten, p ∈ all) (hc : stands c .before) :
    m.deliverAll.Ensures base c fun nodes _ =>
      nodes = arranged all c.order sets.flatten ∧ (arranged all c.order sets.flatten).length < Walk.limit := by
  have horder : ∀ {c' p}, stands c' p → c'.order = c.order := fun hc' => (h.order hc' hc).1
  have hstart : Delivering all c.order stands sets (arranged all c.order sets.flatten) c := by
    by_cases ho : c.order = .unordered
    · rw [ho]
      exact .pulled rfl ⟨.before, hc, .before, rfl⟩
    · exact .fresh ho hc
  exact (Walk.Ensures.collectAll (fun l c => h.deliver hg hsets horder) hstart).mono
    fun nodes _ hnodes => ⟨hnodes.1, hnodes.2.2⟩

/-- The same for all that is delivered up to the first error, when there is none. -/
theorem Traverses.deliverRest (h : Traverses base m stands sets) (hg : Charted base s all)
    (hsets : ∀ p ∈ sets.flatten, p ∈ all) (hc : stands c .before)
    {st : Store} (hst : base.Extends st) {nodes : List Pointer} {c' : Cursor} {st' : Store}
    (hrun : m.deliverRest.runOn c st = (.ok (nodes, none), c', st')) :
    st.Extends st' ∧ nodes = arranged all c.order sets.flatten :=
  (h.deliverAll hg hsets hc st hst _ _ _ (Motion.runOn_deliverUpTo hrun)).imp_right And.left

/-- **The node-set** of a cursor has the same nodes in the same order. -/
theorem Traverses.nodeSet (h : Traverses base m stands sets) (hg : Charted base s all)
    (hsets : ∀ p ∈ sets.flatten, p ∈ all) (hc : stands c .before) :
    m.nodeSet.Ensures base c fun nodes _ => nodes = arranged all c.order sets.flatten := by
  refine .frame_bind (.ite (fun _ => .throw _) fun _ => .cursor_bind ?_)
  refine (h.drain hc).attempt_bind (fun nodes c' hc' => ?_) fun e c' st => ⟨e, by rw [Walk.runOn_bind]; rfl⟩
  obtain ⟨rfl, -⟩ := hc'
  refine (Walk.Ensures.move (Q := fun _ _ => True) trivial).bind fun _ c'' _ => ?_
  refine (Walk.Ensures.ofExcept (Q := fun nodes _ => nodes = sets.flatten) ?_).bind fun nodes c'' hnodes => ?_
  · rintro nodes ⟨⟩
    rfl
  · subst hnodes
    refine .ite (fun ho => ?_) fun ho => ?_
    · rw [eq_of_beq ho]
      exact .pure rfl
    · refine .store_bind fun st hst => .ofExcept fun nodes hnodes => ?_
      exact hg.sorted_eq hsets (fun he => ho (by rw [he]; rfl)) hst hnodes

/-- **The first node** is the first of all sets. -/
theorem Traverses.first (h : Traverses base m stands sets) (hc : stands c .before) (hfresh : c.restarted = c) :
    m.first.Ensures base c fun p? _ => p? = sets.flatten.head? := by
  refine (Walk.Ensures.move (Q := fun _ c' => c' = c) hfresh).bind fun _ c' hc' => ?_
  subst hc'
  refine (h.enter hc).bind fun found c' hc' => ?_
  rcases hc' with ⟨rfl, j, q, hc', hq, hlater⟩ | ⟨rfl, hc', hlater⟩
  · refine .frame_bind (.pure ?_)
    rw [(h.faces hc').2.2.2]
    exact hq.trans (congrArg List.head? hlater).symm
  · exact .pure (congrArg List.head? hlater).symm

end

/-! ## §D  What is delivered -/

/-- **Delivers** says that a cursor that has not started goes through sets of nodes of a realm. -/
structure Cursor.Delivers (base : Store) (s : Surroundings) (has : Pointer → Prop) (c : Cursor)
    (sets : List (List Pointer)) : Prop where
  covers : Realm.Covers has sets
  fresh : c.restarted = c
  traverses : ∃ stands, Traverses base (c.motion s) stands sets ∧ stands c .before

namespace Cursor.Delivers

variable {base : Store} {s : Surroundings} {has : Pointer → Prop} {c : Cursor} {sets : List (List Pointer)}

theorem known {stage : Stage} {nodes : List Pointer} (hs : Grounded base s) (hr : Realm base has)
    (hstage : stage.knows = some nodes) (halike : ∀ w, base.Extends w.base → stage.Alike w stage)
    (hnodes : ∀ p ∈ nodes, has p) (hnarrow : nodes.length ≤ Number.exactBound) :
    (⟨.fresh stage, []⟩ : Cursor).Delivers base s has [nodes] where
  covers := .single hnodes hnarrow
  fresh := by
    simp only [Cursor.restarted, Cursor.Frame.restarted, Frame.fresh, Stage.knows_rewound hstage, List.map_nil]
  traverses := by
    have hsupplies : Supplies base s .still (KnowsAt stage) [nodes] :=
      supplies_known hstage halike fun p hp w hw => hr.alike (hnodes p hp) hw
    refine ⟨_, hsupplies.traverses fun w hw => (hs.natural w hw).alike, ?_⟩
    exact ⟨⟨rfl, rfl, fun _ _ he => by cases he⟩, ⟨rfl, rfl, rfl⟩, rfl⟩

/-- **One more axis.** -/
theorem pushAxis (h : c.Delivers base s has sets) (hs : Grounded base s) (hr : Realm base has) (a : Axis)
    (t : NodeTest) :
    (c.push (.axis a t none)).Delivers base s has (sets.flatten.map (s.along base a t)) where
  covers := by
    have hset : ∀ j, nthSet (sets.flatten.map (s.along base a t)) j = [] ∨
        ∃ x, has x ∧ nthSet (sets.flatten.map (s.along base a t)) j = s.along base a t x := by
      intro j
      rw [nthSet, List.getElem?_map]
      cases hj : sets.flatten[j]? with
      | none => exact .inl rfl
      | some x => exact .inr ⟨x, h.covers.mem_flatten (List.mem_of_getElem? hj), rfl⟩
    constructor
    · intro j p hp
      rcases hset j with hnil | ⟨x, hx, heq⟩
      · rw [hnil] at hp
        cases hp
      · exact hr.along hx (heq ▸ hp)
    · intro j
      rcases hset j with hnil | ⟨x, hx, heq⟩
      · rw [hnil]
        exact Nat.zero_le _
      · rw [heq]
        exact Nat.le_trans (List.length_filter_le _ _) (hr.narrow hx)
  fresh := by
    have hframe := congrArg Cursor.frame h.fresh
    have hearlier := congrArg Cursor.earlier h.fresh
    simp only [Cursor.restarted] at hframe hearlier
    simp only [Cursor.restarted, Cursor.push, List.map_cons, hframe, hearlier]
    rfl
  traverses := by
    obtain ⟨stands, htraverses, hc⟩ := h.traverses
    refine ⟨_, (htraverses.supplies_along hs hr h.covers a t).traverses fun w hw => (hs.natural w hw).alike, ?_⟩
    exact ⟨.before rfl hc, ⟨rfl, rfl, rfl⟩, rfl⟩

/-- **One more predicate.** -/
theorem pushCondition (h : c.Delivers base s has sets) (hs : Grounded base s) (hr : Realm base has) (e : Expr) :
    (c.pushCondition e).Delivers base s has (sets.map (s.keep base e)) where
  covers := {
    nodes := fun hp => h.covers.nodes (Surroundings.mem_of_mem_keep (nthSet_keep _ ▸ hp))
    narrow := fun j => by
      rw [nthSet_keep]
      exact Nat.le_trans (Surroundings.keep_length_le _ _) (h.covers.narrow j) }
  fresh := by
    have hframe := congrArg Cursor.frame h.fresh
    have hearlier := congrArg Cursor.earlier h.fresh
    simp only [Cursor.restarted] at hframe hearlier
    simp only [Cursor.restarted, Cursor.pushCondition, Cursor.push, List.map_cons, hframe, hearlier]
    rfl
  traverses := by
    obtain ⟨stands, htraverses, hc⟩ := h.traverses
    refine ⟨_, (htraverses.supplies_condition hs hr h.covers e).traverses fun w hw => (hs.natural w hw).alike, ?_⟩
    exact ⟨.before rfl hc, ⟨rfl, rfl, rfl⟩, rfl⟩

/-! ## §E  Paths -/

/-- **Predicates** are applied to every set, one after the other. -/
theorem pushConditions {along : Pointer → List Pointer} {nodes : List Pointer} (hs : Grounded base s)
    (hr : Realm base has) (predicates : List Expr) (h : c.Delivers base s has (nodes.map along)) :
    (predicates.foldl Cursor.pushCondition c).Delivers base s has
      (nodes.map fun p => predicates.foldl (fun nodes e => s.keep base e nodes) (along p)) := by
  induction predicates generalizing c along with
  | nil => exact h
  | cons e predicates ih =>
    have hkeep := h.pushCondition hs hr e
    rw [List.map_map] at hkeep
    exact ih hkeep

/-- **One more step.** -/
theorem pushStep (h : c.Delivers base s has sets) (hs : Grounded base s) (hr : Realm base has) (step : Step) :
    (c.pushStep step).Delivers base s has (sets.flatten.map (s.stepFrom base step)) :=
  pushConditions hs hr step.predicates (h.pushAxis hs hr step.axis step.test)

/-- **Steps** deliver what they mean. -/
theorem pushSteps (h : c.Delivers base s has sets) (hs : Grounded base s) (hr : Realm base has) (steps : List Step) :
    ∃ sets', (c.pushSteps steps).Delivers base s has sets' ∧ sets'.flatten = s.eager base steps sets.flatten := by
  induction steps generalizing c sets with
  | nil => exact ⟨sets, h, rfl⟩
  | cons step steps ih =>
    obtain ⟨sets', hdelivers, heq⟩ := ih (h.pushStep hs hr step)
    exact ⟨sets', hdelivers, heq⟩

end Cursor.Delivers

end NodePath
