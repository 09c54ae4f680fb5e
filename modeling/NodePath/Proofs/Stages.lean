/-
# NodePath.Proofs.Stages — what the stages of a path supply

Three kinds of stages make up the cursor of a path. Known nodes are one set as they stand. An axis makes one set
of each node that the stages before it deliver. A condition makes one set of each set of the stages before it,
and has to be told apart by what its predicate turns out to be: a number that does not depend on the context is
gone to at once, and everything else is asked of one node after the other.

* §A  `Realm`: nodes among which all axes stay.
* §B  Known nodes.
* §C  What is left of the sets of a cursor.
* §D  Axes.
* §E  Conditions.
-/
import NodePath.Proofs.Judgement
import NodePath.Proofs.Position

namespace NodePath

/-! ## §A  Realms -/

/-- **Realm** is a set of nodes of documents of a store that no axis leaves, and in which no axis is longer than
positions are told apart. -/
structure Realm (base : Store) (has : Pointer → Prop) : Prop where
  json : ∀ {p}, has p → ∃ r, p = .json r ∧ r.doc < base.documents.size
  closed : ∀ {p q} {a : Axis}, has p → q ∈ a.nodes p base → has q
  narrow : ∀ {p} {a : Axis}, has p → (a.nodes p base).length ≤ Number.exactBound

section

variable {base : Store} {has : Pointer → Prop} {s : Surroundings} {st : Store} {p : Pointer}

theorem Realm.within (hr : Realm base has) (hp : has p) : p.Within base.documents.size := by
  obtain ⟨r, rfl, hdoc⟩ := hr.json hp
  exact hdoc

theorem Realm.alike (hr : Realm base has) (hp : has p) {w : World} (hw : base.Extends w.base) : p.Alike w p :=
  Pointer.Within.alike ((hr.within hp).mono hw.size_le)

/-- Alike nodes of the base are equal. -/
theorem Pointer.Alike.eq {w : World} {p q : Pointer} (h : p.Alike w q) (hp : p.Within w.base.documents.size) :
    p = q := by
  induction h with
  | json path asAttribute b rootName hpair => rw [w.right_unique hpair (w.refl hp)]
  | absentUnder n _ ih => rw [ih hp]
  | _ => rfl

theorem PointersAlike.eq {w : World} {ps qs : List Pointer} (h : PointersAlike w ps qs)
    (hp : ∀ p ∈ ps, p.Within w.base.documents.size) : ps = qs := by
  induction h with
  | nil => rfl
  | cons hpq _ ih =>
    obtain ⟨hp, hps⟩ := List.forall_mem_cons.mp hp
    rw [hpq.eq hp, ih hps]

theorem Grounded.holds (hs : Grounded base s) (hst : base.Extends st) :
    (World.only base hs.closed).Holds base st := World.holds_only (.refl hs.sound) hst

/-- An axis looks the same in every store that extends the base. -/
theorem Realm.nodes_eq (hr : Realm base has) (hs : Grounded base s) (hst : base.Extends st) (a : Axis)
    (hp : has p) : a.nodes p st = a.nodes p base :=
  ((hs.holds hst).nodes a (hr.alike hp (.refl hs.sound))).eq (fun _ hq => hr.within (hr.closed hp hq)) |>.symm

theorem Grounded.passes_eq (hs : Grounded base s) (hr : Realm base has) (hst : base.Extends st) (t : NodeTest)
    (hp : has p) : t.accepts (s.resolve st) p st = s.passes base t p := by
  have hw : base.Extends (World.only base hs.closed).base := .refl hs.sound
  rw [Surroundings.passes, (hs.natural _ hw).resolve _ _ _ (.refl _) (hs.holds hst),
    (hs.holds hst).accepts t _ (hr.alike hp hw)]

theorem Realm.opened (hr : Realm base has) (hp : has p) (st : Store) : p.opened.runOn st = (.ok p, st) := by
  obtain ⟨r, rfl, -⟩ := hr.json hp
  have hfollow : (Pointer.json r).follow st = .json r := by
    simp [Pointer.follow, Pointer.followFrom, Pointer.opening]
  simp only [Pointer.opened, Eval.runOn_bind, Eval.runOn_get, hfollow]
  rfl

/-- **Opens** says that a node is opened to a node of a realm, now and later. The nodes of the realm are opened to
themselves; a variable is no node of it, but may be opened to one. -/
def Realm.Opens (base : Store) (has : Pointer → Prop) (p q : Pointer) : Prop :=
  has q ∧ ∀ {st}, base.Extends st → p.opened.runOn st = (.ok q, st)

theorem Realm.opens_self (hr : Realm base has) (hp : has p) : Realm.Opens base has p p :=
  ⟨hp, fun _ => hr.opened hp _⟩

theorem Realm.along (hr : Realm base has) {a : Axis} {t : NodeTest} {q : Pointer} (hp : has p)
    (hq : q ∈ s.along base a t p) : has q := hr.closed hp (List.mem_of_mem_filter hq)

/-- All nodes of all sets are of the realm, and no set is longer than positions are told apart. -/
structure Realm.Covers (has : Pointer → Prop) (sets : List (List Pointer)) : Prop where
  nodes : ∀ {j p}, p ∈ nthSet sets j → has p
  narrow : ∀ j, (nthSet sets j).length ≤ Number.exactBound

/-- One set of nodes of the realm. -/
theorem Realm.Covers.single {nodes : List Pointer} (hnodes : ∀ p ∈ nodes, has p)
    (hnarrow : nodes.length ≤ Number.exactBound) : Realm.Covers has [nodes] where
  nodes := by
    intro j p hp
    cases j with
    | zero => exact hnodes p hp
    | succ j => simp [nthSet] at hp
  narrow := by
    intro j
    cases j with
    | zero => exact hnarrow
    | succ j => simp [nthSet]

theorem Realm.Covers.mem_flatten {sets : List (List Pointer)} (h : Realm.Covers has sets)
    (hp : p ∈ sets.flatten) : has p := by
  obtain ⟨set, hset, hp⟩ := List.mem_flatten.mp hp
  obtain ⟨j, hj, rfl⟩ := List.mem_iff_getElem.mp hset
  exact h.nodes (j := j) (by rw [nthSet, List.getElem?_eq_getElem hj]; exact hp)

end

/-! ## §B  Known nodes -/

section

variable {base : Store} {s : Surroundings}

/-- **KnowsAt** says that the only stage of a cursor is one that knows its nodes. -/
def KnowsAt (stage : Stage) (c : Cursor) (p : Place) : Prop :=
  c.frame.stage = stage ∧ c.earlier = [] ∧ ∀ j i, p = .within j i → j = 0

/-- The nodes that a stage knows. -/
def Stage.knows : Stage → Option (List Pointer)
  | .start origin none => some [origin]
  | .start _ (some members) => some members
  | .known nodes _ => some nodes
  | _ => none

theorem Stage.knows_rewound {stage : Stage} {nodes : List Pointer} (h : stage.knows = some nodes) :
    Cursor.Stage.rewound stage = stage := by
  cases stage <;> first | rfl | cases h

theorem Stage.knows_single {origin : Pointer} {nodes : List Pointer}
    (h : (Stage.start origin none).knows = some nodes) : nodes = [origin] := by
  cases h; rfl

theorem Stage.knows_knownAt {stage : Stage} {nodes : List Pointer} (h : stage.knows = some nodes) (k : Nat) :
    Motion.knownAt? (k + 1) stage = some nodes[k]? := by
  cases stage with
  | start origin members => cases members <;> cases h <;> cases k <;> rfl
  | known nodes order => cases h; rfl
  | axis a t pending => cases h
  | condition e positional done => cases h

theorem Stage.knows_findSet {f : Frame} {nodes : List Pointer} (h : f.stage.knows = some nodes) (up : Motion) :
    up.findSet f = pure !(f.progress == .inSet) := by
  unfold Motion.findSet
  cases hs : f.stage with
  | start origin members => rfl
  | known nodes order => rfl
  | axis a t pending => rw [hs] at h; cases h
  | condition e positional done => rw [hs] at h; cases h

theorem Stage.knows_produce {c : Cursor} {nodes : List Pointer} {post : Option Pointer → Cursor → Prop} {up : Motion}
    (h : c.frame.stage.knows = some nodes) (hpost : post nodes[c.frame.position]? c) :
    (up.produce s).Ensures base c post := by
  refine .frame_bind ?_
  cases hs : c.frame.stage with
  | start origin members =>
    rw [hs] at h
    cases members with
    | none =>
      cases h
      cases hp : c.frame.position <;> rw [hp] at hpost <;> exact .pure hpost
    | some members => cases h; exact .pure hpost
  | known nodes order => rw [hs] at h; cases h; exact .pure hpost
  | axis a t pending => rw [hs] at h; cases h
  | condition e positional done => rw [hs] at h; cases h

/-- **Known nodes are one set.** -/
theorem supplies_known {stage : Stage} {nodes : List Pointer} (hstage : stage.knows = some nodes)
    (halike : ∀ w, base.Extends w.base → stage.Alike w stage)
    (hnodes : ∀ p ∈ nodes, ∀ w, base.Extends w.base → p.Alike w p) :
    Supplies base s .still (KnowsAt stage) [nodes] where
  natural _ _ := .still
  settled := by
    rintro ⟨f, fs⟩ p ⟨rfl, rfl, -⟩ w hw
    exact ⟨halike w hw, .nil⟩
  nodes := by
    intro j p hp
    cases j with
    | zero => exact hnodes p hp
    | succ j => simp [nthSet] at hp
  order := by
    rintro ⟨f, fs⟩ p ⟨f', fs'⟩ p' ⟨hf, rfl, -⟩ ⟨hf', rfl, -⟩
    have hstages : f.stage = f'.stage := hf.trans hf'.symm
    simp only [Cursor.order, Cursor.sortsNext, Cursor.orderOf, hstages, and_self]
  stage := by
    rintro f g fs p ⟨rfl, rfl, hp⟩ hg
    exact ⟨hg, rfl, hp⟩
  rewound := by
    rintro ⟨f, fs⟩ p ⟨rfl, rfl, hp⟩
    refine ⟨?_, ?_, ?_⟩
    · rw [Cursor.rewound_frame]
      exact Stage.knows_rewound hstage
    · unfold Cursor.rewound Cursor.rewoundFrames
      cases f.stage <;> rfl
    · cases p <;> simp_all [Place.rewound]
  findSet := by
    rintro ⟨f, fs⟩ p ⟨rfl, rfl, hp⟩ hfaces hafter -
    have hwithin : p.isWithin = (f.progress == .inSet) := hfaces.isWithin
    rw [Stage.knows_findSet hstage]
    cases p with
    | before =>
      refine .pure ⟨rfl, ⟨rfl, rfl, ?_⟩, ?_⟩
      · simp [Place.nextSet]
      · simp [← hwithin, Place.nextSet, Place.isWithin]
    | within j i =>
      obtain rfl := hp j i rfl
      refine .pure ⟨rfl, ⟨rfl, rfl, ?_⟩, ?_⟩
      · simp [Place.nextSet]
      · simp [← hwithin, Place.nextSet, Place.isWithin]
    | after => exact absurd rfl hafter
  produce := by
    rintro ⟨f, fs⟩ j i ⟨rfl, rfl, hp⟩ rfl
    obtain rfl := hp j _ rfl
    exact Stage.knows_produce hstage ⟨⟨f.stage, rfl⟩, rfl, rfl, rfl, by simp⟩
  known := by
    rintro ⟨f, fs⟩ j i k found ⟨rfl, rfl, hp⟩ hknown
    obtain rfl := hp j i rfl
    rw [Stage.knows_knownAt hstage] at hknown
    cases hknown
    exact ⟨rfl, rfl, rfl, by simp⟩
  single := by
    rintro ⟨f, fs⟩ p origin ⟨rfl, rfl, -⟩ hf
    have hnodes : nodes = [origin] := Stage.knows_single (hf ▸ hstage)
    rw [hnodes]

end

/-! ## §C  What is left -/

namespace Place

/-- The nodes of the sets behind the present one. -/
def later (sets : List (List Pointer)) : Place → List Pointer
  | before => sets.flatten
  | within j _ => (sets.drop (j + 1)).flatten
  | after => []

/-- **rest** are the nodes that are left, those of the present set first. -/
def rest (sets : List (List Pointer)) : Place → List Pointer
  | within j i => (nthSet sets j).drop i ++ later sets (within j i)
  | p => later sets p

variable {sets : List (List Pointer)}

theorem nthSet_append_later {j : Nat} (hj : j < sets.length) :
    nthSet sets j ++ later sets (within j 0) = (sets.drop j).flatten := by
  rw [List.drop_eq_getElem_cons hj, List.flatten_cons, nthSet, List.getElem?_eq_getElem hj]
  rfl

/-- The next set begins what is left behind the present one. -/
theorem nextSet_eq (sets : List (List Pointer)) (p : Place) :
    (∃ j, p.nextSet sets = within j 0 ∧ j < sets.length ∧
        p.later sets = nthSet sets j ++ later sets (within j 0)) ∨
      (p.nextSet sets = after ∧ p.later sets = []) := by
  have hstart : ∀ k, (∃ j, (if k < sets.length then within k 0 else after) = within j 0 ∧ j < sets.length ∧
      (sets.drop k).flatten = nthSet sets j ++ later sets (within j 0)) ∨
      ((if k < sets.length then within k 0 else after) = after ∧ (sets.drop k).flatten = []) := by
    intro k
    by_cases hk : k < sets.length
    · exact .inl ⟨k, if_pos hk, hk, (nthSet_append_later hk).symm⟩
    · exact .inr ⟨if_neg hk, by rw [List.drop_eq_nil_of_le (Nat.le_of_not_lt hk)]; rfl⟩
  cases p with
  | before => exact hstart 0
  | within j i => exact hstart (j + 1)
  | after => exact .inr ⟨rfl, rfl⟩

end Place

section

variable {base : Store} {m : Motion} {stands : Cursor → Place → Prop} {sets : List (List Pointer)} {c : Cursor}
  {p : Place}

/-- **Entering** the next set that has a node leaves nothing out. -/
theorem Traverses.enter (h : Traverses base m stands sets) (hc : stands c p) :
    m.enter.Ensures base c fun found c' =>
      (found = true ∧ ∃ j q, stands c' (.within j 1) ∧ (nthSet sets j)[0]? = some q ∧
        p.later sets = q :: Place.rest sets (.within j 1)) ∨
      (found = false ∧ stands c' .after ∧ p.later sets = []) := by
  refine .repeatUntil (I := fun c => ∃ q, stands c q ∧ q.later sets = p.later sets) ?_ ⟨p, hc, rfl⟩
  rintro c ⟨q, hc, hlater⟩
  refine (h.nextSet hc).bind fun found c' hc' => ?_
  obtain ⟨hc', rfl⟩ := hc'
  rcases Place.nextSet_eq sets q with ⟨j, hnext, hj, heq⟩ | ⟨hnext, heq⟩
  · rw [hnext] at hc' ⊢
    refine (h.nextNode_within hc').bind fun found c'' hc'' => ?_
    obtain ⟨rfl, hlen, hc''⟩ | ⟨rfl, hlen, hc''⟩ := hc''
    · refine .pure (.inl ⟨rfl, j, (nthSet sets j)[0], hc'', List.getElem?_eq_getElem hlen, ?_⟩)
      rw [← hlater, heq, Place.rest, ← List.cons_append, List.getElem_cons_drop, List.drop_zero]
      rfl
    · have hnil : nthSet sets j = [] := List.length_eq_zero_iff.mp (Nat.le_zero.mp hlen)
      exact .pure ⟨.within j 0, hc'', by rw [← hlater, heq, hnil]; rfl⟩
  · rw [hnext] at hc' ⊢
    exact .pure (.inr ⟨rfl, hc', hlater ▸ heq⟩)

/-- A place where nodes are asked for one after the other: before or behind everything, or at a node. -/
def Place.AtNode (p : Place) : Prop := ∀ j i, p = .within j i → 1 ≤ i

/-- **Going on** to the next node across sets takes the first of the nodes that are left. -/
theorem Traverses.nextOrigin (h : Traverses base m stands sets) (hc : stands c p) (hp : p.AtNode) :
    (m.nextOrigin p.isWithin).Ensures base c fun found c' =>
      (found = true ∧ ∃ j i q, stands c' (.within j (i + 1)) ∧ (nthSet sets j)[i]? = some q ∧
        p.rest sets = q :: Place.rest sets (.within j (i + 1))) ∨
      (found = false ∧ stands c' .after ∧ p.rest sets = []) := by
  have henter : ∀ {c q}, stands c q → q.later sets = p.rest sets → m.enter.Ensures base c fun found c' =>
      (found = true ∧ ∃ j i q, stands c' (.within j (i + 1)) ∧ (nthSet sets j)[i]? = some q ∧
        p.rest sets = q :: Place.rest sets (.within j (i + 1))) ∨
      (found = false ∧ stands c' .after ∧ p.rest sets = []) := by
    intro c q hc hq
    refine (h.enter hc).mono fun found c' hc' => ?_
    rcases hc' with ⟨hf, j, x, hc', hx, heq⟩ | ⟨hf, hc', heq⟩
    · exact .inl ⟨hf, j, 0, x, hc', hx, hq ▸ heq⟩
    · exact .inr ⟨hf, hc', hq ▸ heq⟩
  cases p with
  | before => exact henter hc rfl
  | after => exact henter hc rfl
  | within j i =>
    simp only [Motion.nextOrigin, Place.isWithin, if_true]
    refine (h.nextNode_within hc).bind fun found c' hc' => ?_
    obtain ⟨rfl, hi, hc'⟩ | ⟨rfl, hi, hc'⟩ := hc'
    · refine .pure (.inl ⟨rfl, j, i, (nthSet sets j)[i], hc', List.getElem?_eq_getElem hi, ?_⟩)
      rw [Place.rest, List.drop_eq_getElem_cons hi]
      rfl
    · refine henter hc' ?_
      rw [Place.rest, List.drop_eq_nil_of_le hi]
      rfl

end

/-! ## §D  Axes -/

section

variable {base : Store} {has : Pointer → Prop} {s : Surroundings} {up : Motion} {stands : Cursor → Place → Prop}
  {sets : List (List Pointer)} {along : Pointer → List Pointer} {a : Axis} {t : NodeTest}

/-- **MadeAlong** says that what is made of each of some nodes is what an axis makes of the node that it is opened to. -/
def MadeAlong (base : Store) (has : Pointer → Prop) (s : Surroundings) (a : Axis) (t : NodeTest)
    (along : Pointer → List Pointer) (nodes : List Pointer) : Prop :=
  ∀ x ∈ nodes, ∃ y, Realm.Opens base has x y ∧ along x = s.along base a t y

theorem Realm.Covers.madeAlong (hcover : Realm.Covers has sets) (hr : Realm base has) (a : Axis) (t : NodeTest) :
    MadeAlong base has s a t (s.along base a t) sets.flatten :=
  fun x hx => ⟨x, hr.opens_self (hcover.mem_flatten hx), rfl⟩

/-- The nodes of an axis that are pending at a position of a set. -/
def PendingAt (base : Store) (has : Pointer → Prop) (s : Surroundings) (t : NodeTest) (set : List Pointer) (i : Nat) :
    Option (List Pointer) → Prop
  | none => i = 0
  | some nodes => (∀ q ∈ nodes, has q) ∧ nodes.filter (s.passes base t) = set.drop i

/-- **AlongAt** says that the last stage of a cursor is an axis, which makes `along x` of a node `x`. It is in the set of
the node at which the stages before it are, and these have as many nodes left as there are sets to come. -/
inductive AlongAt (base : Store) (has : Pointer → Prop) (s : Surroundings) (stands : Cursor → Place → Prop)
    (sets : List (List Pointer)) (along : Pointer → List Pointer) (a : Axis) (t : NodeTest) : Cursor → Place → Prop
  | before {f : Frame} {up : Cursor} : f.stage = .axis a t none → stands up .before →
    AlongAt base has s stands sets along a t ⟨f, up.frame :: up.earlier⟩ .before
  | within {f : Frame} {up : Cursor} {j i k l : Nat} {x : Pointer} (pending : Option (List Pointer)) :
    f.stage = .axis a t pending → stands up (.within k (l + 1)) → (nthSet sets k)[l]? = some x →
    sets.flatten.drop j = x :: Place.rest sets (.within k (l + 1)) → PendingAt base has s t (along x) i pending →
    AlongAt base has s stands sets along a t ⟨f, up.frame :: up.earlier⟩ (.within j i)
  | after {f : Frame} {up : Cursor} {q : Place} : f.stage = .axis a t none → stands up q →
    AlongAt base has s stands sets along a t ⟨f, up.frame :: up.earlier⟩ .after

/-- Wherever it is, its last stage is the axis, with nothing but nodes of the realm pending, and the stages before it
stand somewhere. -/
theorem AlongAt.stages {c : Cursor} {p : Place} (h : AlongAt base has s stands sets along a t c p) :
    ∃ f up q pending, c = ⟨f, up.frame :: up.earlier⟩ ∧ f.stage = .axis a t pending ∧ stands up q ∧
      ∀ nodes, pending = some nodes → ∀ x ∈ nodes, has x := by
  cases h with
  | before hstage hup => exact ⟨_, _, _, none, rfl, hstage, hup, nofun⟩
  | within pending hstage hup _ _ hpending =>
    refine ⟨_, _, _, pending, rfl, hstage, hup, ?_⟩
    rintro nodes rfl
    exact hpending.1
  | after hstage hup => exact ⟨_, _, _, none, rfl, hstage, hup, nofun⟩

/-- The set of the node that the sets before are at. -/
theorem nthSet_along (along : Pointer → List Pointer) {j : Nat} {x : Pointer} {rest : List Pointer}
    (h : sets.flatten.drop j = x :: rest) :
    j < sets.flatten.length ∧ x ∈ sets.flatten ∧ nthSet (sets.flatten.map along) j = along x := by
  have hx : sets.flatten[j]? = some x := by rw [← List.head?_drop, h]; rfl
  refine ⟨(List.getElem?_eq_some_iff.mp hx).1, List.mem_of_getElem? hx, ?_⟩
  rw [nthSet, List.getElem?_map, hx]
  rfl

/-- Dropping what does not pass leaves what passes as it is. -/
theorem filter_dropWhile {α : Type} {f g : α → Bool} {l : List α} (h : ∀ a ∈ l, g a = !f a) :
    (l.dropWhile g).head? = (l.filter f).head? ∧ ((l.dropWhile g).drop 1).filter f = (l.filter f).drop 1 := by
  induction l with
  | nil => exact ⟨rfl, rfl⟩
  | cons a l ih =>
    obtain ⟨ha, hl⟩ := List.forall_mem_cons.mp h
    cases hf : f a with
    | true => simp [ha, hf]
    | false => simpa [ha, hf] using ih hl

theorem Traverses.pendingNodes (h : Traverses base up stands sets) (hs : Grounded base s) (hr : Realm base has)
    {f : Frame} {c : Cursor} {k l i : Nat} {x y : Pointer} {pending : Option (List Pointer)}
    (hc : stands c (.within k (l + 1))) (hx : (nthSet sets k)[l]? = some x) (hopens : Realm.Opens base has x y)
    (hpending : PendingAt base has s t (s.along base a t y) i pending) :
    (up.pendingNodes a pending).Ensures base ⟨f, c.frame :: c.earlier⟩ fun nodes? c' =>
      ∃ nodes c₁, nodes? = some nodes ∧ c' = ⟨f, c₁.frame :: c₁.earlier⟩ ∧ stands c₁ (.within k (l + 1)) ∧
        PendingAt base has s t (s.along base a t y) i (some nodes) := by
  obtain ⟨hhas, hopened⟩ := hopens
  cases pending with
  | some nodes => exact .pure ⟨nodes, c, rfl, rfl, hc, hpending⟩
  | none =>
    refine (Walk.Ensures.inEarlier (Q := fun p? c' => ∃ c₁, c' = ⟨f, c₁.frame :: c₁.earlier⟩ ∧
      stands c₁ (.within k (l + 1)) ∧ p? = some x) ((h.current hc x hx).mono fun p? c₁ hc₁ => ?_)).bind
        fun p? c' hc' => ?_
    · exact ⟨c₁, rfl, hc₁⟩
    · obtain ⟨c₁, rfl, hc₁, rfl⟩ := hc'
      refine Walk.Ensures.bind_run fun st hst q c₂ st₁ hrun => ?_
      rw [Walk.runOn_lift, hopened hst] at hrun
      cases hrun
      refine ⟨.refl hst.sound, fun nodes? c' st' hrun => ?_⟩
      rw [Walk.runOn_bind, Walk.runOn_store] at hrun
      cases hrun
      refine ⟨.refl hst.sound, _, c₁, rfl, rfl, hc₁, ?_, ?_⟩
      · exact fun q hq => hr.closed hhas (hr.nodes_eq hs hst a hhas ▸ hq)
      · obtain rfl : i = 0 := hpending
        rw [hr.nodes_eq hs hst a hhas]
        rfl

theorem Traverses.nextAlong (h : Traverses base up stands sets) (hs : Grounded base s) (hr : Realm base has)
    {f : Frame} {c : Cursor} {k l i : Nat} {x y : Pointer} {pending : Option (List Pointer)}
    (hc : stands c (.within k (l + 1))) (hx : (nthSet sets k)[l]? = some x) (hopens : Realm.Opens base has x y)
    (hpending : PendingAt base has s t (s.along base a t y) i pending) :
    (up.nextAlong s a t pending).Ensures base ⟨f, c.frame :: c.earlier⟩ fun p? c' =>
      p? = (s.along base a t y)[i]? ∧ ∃ nodes c₁, c' = ⟨{ f with stage := .axis a t (some nodes) }, c₁.frame :: c₁.earlier⟩ ∧
        stands c₁ (.within k (l + 1)) ∧
          PendingAt base has s t (s.along base a t y) (if p?.isSome then i + 1 else i) (some nodes) := by
  refine (h.pendingNodes hs hr hc hx hopens hpending).bind fun nodes? c' hc' => ?_
  obtain ⟨nodes, c₁, rfl, rfl, hc₁, hall, hfilter⟩ := hc'
  refine .store_bind fun st hst => ?_
  obtain ⟨hhead, htail⟩ := filter_dropWhile (f := s.passes base t)
    (g := fun p => !t.accepts (s.resolve st) p st) fun q hq => by rw [hs.passes_eq hr hst t (hall q hq)]
  rw [hfilter] at hhead htail
  refine (Walk.Ensures.modifyFrame (Q := fun _ c' =>
    c' = ⟨{ f with stage := .axis a t (some ((nodes.dropWhile fun p => !t.accepts (s.resolve st) p st).drop 1)) },
      c₁.frame :: c₁.earlier⟩) rfl).bind fun _ c' hc' => ?_
  subst hc'
  refine .pure ⟨by rw [hhead, List.head?_drop], _, c₁, rfl, hc₁, ?_, ?_⟩
  · exact fun q hq => hall q ((List.dropWhile_suffix _).mem (List.mem_of_mem_drop hq))
  · rw [htail, List.drop_drop]
    cases hnode : (s.along base a t y)[i]? with
    | none =>
      have hlen : (s.along base a t y).length ≤ i := List.getElem?_eq_none_iff.mp hnode
      rw [hhead, List.head?_drop, hnode, List.drop_eq_nil_of_le (by omega),
        List.drop_eq_nil_of_le (by simpa using hlen)]
    | some q =>
      rw [hhead, List.head?_drop, hnode]
      rfl

theorem Cursor.rewound_axis {f : Frame} {fs : List Frame} {pending : Option (List Pointer)}
    (h : f.stage = .axis a t pending) : (⟨f, fs⟩ : Cursor).rewound = ⟨Cursor.Frame.rewound f, fs⟩ := by
  simp only [Cursor.rewound, Cursor.rewoundFrames, h]

theorem Cursor.Frame.rewound_axis {f : Frame} {pending : Option (List Pointer)} (h : f.stage = .axis a t pending) :
    (Cursor.Frame.rewound f).stage = .axis a t none := by
  simp only [Cursor.Frame.rewound, h, Cursor.Stage.rewound]

/-- The order of an axis behind stages that may have to be sorted. -/
def Cursor.orderAlong (a : Axis) (sorts : Bool) : Order :=
  match a with
  | .ancestor => .descending
  | .ancestorOrSelf => .descending
  | .preceding => .descending
  | .following => .ascending
  | _ => if sorts then .ascending else .unordered

theorem Cursor.order_along {f : Frame} {c : Cursor} {pending : Option (List Pointer)}
    (h : f.stage = .axis a t pending) :
    (⟨f, c.frame :: c.earlier⟩ : Cursor).order = orderAlong a c.sortsNext ∧
      (⟨f, c.frame :: c.earlier⟩ : Cursor).sortsNext = Stage.sortsNext (.axis a t none) (orderAlong a c.sortsNext) := by
  have horder : (⟨f, c.frame :: c.earlier⟩ : Cursor).order = orderAlong a c.sortsNext := by
    simp only [Cursor.order, Cursor.orderOf, h]
    cases a <;> rfl
  refine ⟨horder, ?_⟩
  rw [Cursor.sortsNext, horder]
  simp only [h]
  cases a <;> rfl

/-- The next set of an axis is that of the next node of the stages before it. -/
theorem Traverses.findSet_along (h : Traverses base up stands sets) {f : Frame} {c : Cursor} {p q : Place} {n : Nat}
    (hstage : f.stage = .axis a t none) (hc : stands c q) (hq : q.AtNode) (hwithin : q.isWithin = (f.progress == .inSet))
    (hdrop : sets.flatten.drop n = q.rest sets)
    (hnext : p.nextSet (sets.flatten.map along) =
      if n < (sets.flatten.map along).length then .within n 0 else .after) :
    (up.findSet f).Ensures base ⟨f, c.frame :: c.earlier⟩ fun found c' =>
      c'.frame = f ∧ AlongAt base has s stands sets along a t c' (p.nextSet (sets.flatten.map along)) ∧
        found = (p.nextSet (sets.flatten.map along)).isWithin := by
  have hfind : up.findSet f = Walk.inEarlier false (up.nextOrigin q.isWithin) := by
    simp only [Motion.findSet, hstage, hwithin]
  rw [hfind, hnext, List.length_map]
  refine .inEarlier ((h.nextOrigin hc hq).mono fun found c' hc' => ⟨rfl, ?_⟩)
  rcases hc' with ⟨rfl, k, l, x, hc', hx, hrest⟩ | ⟨rfl, hc', hrest⟩
  · have hdrop' := hdrop.trans hrest
    have hlt : n < sets.flatten.length := (nthSet_along along hdrop').1
    rw [if_pos hlt]
    exact ⟨.within none hstage hc' hx hdrop' rfl, rfl⟩
  · have hlt : ¬n < sets.flatten.length := by
      rw [hrest, List.drop_eq_nil_iff] at hdrop
      omega
    rw [if_neg hlt]
    exact ⟨.after hstage hc', rfl⟩

/-- **An axis makes one set of each node that the stages before it deliver.** -/
theorem Traverses.supplies_madeAlong (h : Traverses base up stands sets) (hs : Grounded base s) (hr : Realm base has)
    (hmade : MadeAlong base has s a t along sets.flatten) :
    Supplies base s up (AlongAt base has s stands sets along a t) (sets.flatten.map along) where
  natural := h.natural
  settled := by
    rintro _ _ hc w hw
    obtain ⟨f, c, q, pending, rfl, hstage, hup, hhas⟩ := hc.stages
    have hsettled := h.settled hup w hw
    refine ⟨?_, .cons hsettled.frame hsettled.earlier⟩
    rw [hstage]
    cases pending with
    | none => exact .axis a t .none
    | some nodes => exact .axis a t (.some (List.forall₂_same.mpr fun x hx => hr.alike (hhas nodes rfl x hx) hw))
  nodes := by
    intro j p hp w hw
    obtain ⟨x, hx, hp⟩ : ∃ x ∈ sets.flatten, p ∈ along x := by
      rw [nthSet, List.getElem?_map] at hp
      cases hj : sets.flatten[j]? with
      | none => rw [hj] at hp; cases hp
      | some x => rw [hj] at hp; exact ⟨x, List.mem_of_getElem? hj, hp⟩
    obtain ⟨y, hopens, halong⟩ := hmade x hx
    exact hr.alike (hr.along hopens.1 (halong ▸ hp)) hw
  order := by
    intro _ _ _ _ hc hc'
    obtain ⟨f, c, q, pending, rfl, hstage, hup, -⟩ := hc.stages
    obtain ⟨f', c', q', pending', rfl, hstage', hup', -⟩ := hc'.stages
    obtain ⟨horder, hsorts⟩ := Cursor.order_along (c := c) hstage
    obtain ⟨horder', hsorts'⟩ := Cursor.order_along (c := c') hstage'
    rw [horder, horder', hsorts, hsorts', (h.order hup hup').2]
    exact ⟨rfl, rfl⟩
  stage := by
    rintro f g fs p hc hg
    cases hc with
    | before hstage hup => exact .before (hg.trans hstage) hup
    | within pending hstage hup hx hrest hpending => exact .within pending (hg.trans hstage) hup hx hrest hpending
    | after hstage hup => exact .after (hg.trans hstage) hup
  rewound := by
    rintro _ _ hc
    cases hc with
    | before hstage hup =>
      rw [Cursor.rewound_axis hstage]
      exact .before (Cursor.Frame.rewound_axis hstage) hup
    | within pending hstage hup hx hrest hpending =>
      rw [Cursor.rewound_axis hstage]
      exact .within none (Cursor.Frame.rewound_axis hstage) hup hx hrest rfl
    | after hstage hup =>
      rw [Cursor.rewound_axis hstage]
      exact .after (Cursor.Frame.rewound_axis hstage) hup
  findSet := by
    rintro _ p hc hfaces hafter hfresh
    cases hc with
    | before hstage hup =>
      exact h.findSet_along hstage hup (fun _ _ he => by cases he) hfaces.isWithin rfl rfl
    | @within f up j i k l x pending hstage hup hx hrest hpending =>
      have hnone : f.stage = .axis a t none := by rw [← hfresh]; simp only [hstage, Cursor.Stage.rewound]
      refine h.findSet_along (n := j + 1) hnone hup ?_ hfaces.isWithin ?_ rfl
      · rintro _ _ he
        cases he
        exact Nat.succ_pos l
      · rw [← List.tail_drop, hrest]
        rfl
    | after hstage hup => exact absurd rfl hafter
  produce := by
    rintro _ j i hc hposition
    cases hc with
    | within pending hstage hup hx hrest hpending =>
      -- The set belongs to the origin `x`, but it is made from what `x` is opened to.
      obtain ⟨-, hmem, hset⟩ := nthSet_along along hrest
      obtain ⟨y, hopens, halong⟩ := hmade _ hmem
      rw [hset]
      rw [halong] at hpending ⊢
      refine .frame_bind ?_
      simp only [hstage]
      refine (h.nextAlong hs hr hup hx hopens hpending).mono fun p? c' hc' => ?_
      obtain ⟨rfl, nodes, c₁, rfl, hc₁, hpending'⟩ := hc'
      exact ⟨⟨_, rfl⟩, rfl, .within _ rfl hc₁ hx hrest (halong.symm ▸ hpending')⟩
  known := by
    rintro _ j i k found hc hknown
    obtain ⟨f, c, q, pending, rfl, hstage, -⟩ := hc.stages
    rw [hstage] at hknown
    cases hknown
  single := by
    rintro _ p origin hc hsingle
    obtain ⟨f, c, q, pending, rfl, hstage, -⟩ := hc.stages
    rw [hstage] at hsingle
    cases hsingle

/-- Of a node of the realm, it makes the nodes that pass its test. -/
theorem Traverses.supplies_along (h : Traverses base up stands sets) (hs : Grounded base s) (hr : Realm base has)
    (hcover : Realm.Covers has sets) (a : Axis) (t : NodeTest) :
    Supplies base s up (AlongAt base has s stands sets (s.along base a t) a t) (sets.flatten.map (s.along base a t)) :=
  h.supplies_madeAlong hs hr (hcover.madeAlong hr a t)

end

/-! ## §E  Conditions -/

section

variable {base : Store} {has : Pointer → Prop} {s : Surroundings} {up : Motion} {stands : Cursor → Place → Prop}
  {sets : List (List Pointer)} {e : Expr}

/-- Whether a predicate is a number wherever it does not depend on its context. -/
def Surroundings.IsNumber (s : Surroundings) (base : Store) (e : Expr) : Prop :=
  ∃ x, (s.judge base e [] 0).1 = .ok (.number x)

/-- **ConditionAt** says that the last stage of a cursor is a condition, in the set that the stages before it are
in. While it is not done, what they have left and the predicate selects is what it has left itself; and a
predicate that is a number whatever its context has not been looked at. -/
inductive ConditionAt (base : Store) (s : Surroundings) (stands : Cursor → Place → Prop)
    (sets : List (List Pointer)) (e : Expr) : Cursor → Place → Prop
  | before {f : Frame} {up : Cursor} : f.stage = .condition e (!e.isContextDependent) false → stands up .before →
    ConditionAt base s stands sets e ⟨f, up.frame :: up.earlier⟩ .before
  | searching {f : Frame} {up : Cursor} {j i k : Nat} : f.stage = .condition e (!e.isContextDependent) false →
    stands up (.within j k) →
    s.keepFrom base e (nthSet sets j) k = (s.keep base e (nthSet sets j)).drop i →
    (e.isContextDependent = false → k = 0 ∨ ¬s.IsNumber base e) →
    ConditionAt base s stands sets e ⟨f, up.frame :: up.earlier⟩ (.within j i)
  | done {f : Frame} {up : Cursor} {j i k : Nat} : f.stage = .condition e (!e.isContextDependent) true →
    stands up (.within j k) → (s.keep base e (nthSet sets j)).length ≤ i →
    ConditionAt base s stands sets e ⟨f, up.frame :: up.earlier⟩ (.within j i)
  | after {f : Frame} {up : Cursor} {q : Place} (done : Bool) :
    f.stage = .condition e (!e.isContextDependent) done → stands up q →
    ConditionAt base s stands sets e ⟨f, up.frame :: up.earlier⟩ .after

/-- Wherever it is, its last stage is the condition, and the stages before it stand somewhere; while there are sets to
come, at a place with the same next set. -/
theorem ConditionAt.stages {c : Cursor} {p : Place} (h : ConditionAt base s stands sets e c p) :
    ∃ f up q done, c = ⟨f, up.frame :: up.earlier⟩ ∧ f.stage = .condition e (!e.isContextDependent) done ∧ stands up q ∧
      (p ≠ .after → p.nextSet (sets.map (s.keep base e)) = q.nextSet sets) := by
  cases h with
  | before hstage hup => exact ⟨_, _, _, _, rfl, hstage, hup, fun _ => by simp only [Place.nextSet, List.length_map]⟩
  | searching hstage hup _ _ =>
    exact ⟨_, _, _, _, rfl, hstage, hup, fun _ => by simp only [Place.nextSet, List.length_map]⟩
  | done hstage hup _ => exact ⟨_, _, _, _, rfl, hstage, hup, fun _ => by simp only [Place.nextSet, List.length_map]⟩
  | after done hstage hup => exact ⟨_, _, _, _, rfl, hstage, hup, fun h => absurd rfl h⟩

theorem nthSet_keep (j : Nat) : nthSet (sets.map (s.keep base e)) j = s.keep base e (nthSet sets j) := by
  rw [nthSet, nthSet, List.getElem?_map]
  cases sets[j]? <;> rfl

theorem Cursor.rewound_condition {f : Frame} {c : Cursor} {positional done : Bool}
    (h : f.stage = .condition e positional done) :
    (⟨f, c.frame :: c.earlier⟩ : Cursor).rewound =
      ⟨Cursor.Frame.rewound f, c.rewound.frame :: c.rewound.earlier⟩ := by
  simp only [Cursor.rewound, Cursor.rewoundFrames, h]
  split <;> rfl

theorem Cursor.Frame.rewound_condition {f : Frame} {positional done : Bool}
    (h : f.stage = .condition e positional done) : (Cursor.Frame.rewound f).stage = .condition e positional false := by
  simp only [Cursor.Frame.rewound, h, Cursor.Stage.rewound]

/-- Behind a condition, what has to be sorted is what has to be sorted behind the stages before it. -/
theorem Cursor.order_condition {f : Frame} {c : Cursor} {positional done : Bool}
    (h : f.stage = .condition e positional done) :
    (⟨f, c.frame :: c.earlier⟩ : Cursor).order = (if c.sortsNext then .ascending else .unordered) ∧
      (⟨f, c.frame :: c.earlier⟩ : Cursor).sortsNext = c.sortsNext := by
  have horder : (⟨f, c.frame :: c.earlier⟩ : Cursor).order = if c.sortsNext then .ascending else .unordered := by
    simp only [Cursor.order, Cursor.orderOf, h]
    rfl
  refine ⟨horder, ?_⟩
  rw [Cursor.sortsNext, horder]
  simp only [h, Cursor.Stage.sortsNext]
  cases c.sortsNext <;> rfl

/-- A judgement that is a number selects its position. -/
theorem Surroundings.selects_number {x : Float} {nodes : List Pointer} {i : Nat}
    (h : (s.judge base e nodes i).1 = .ok (.number x)) :
    s.selects base e nodes i = (x == Number.ofNat i) := by
  unfold Surroundings.selects
  generalize s.judge base e nodes i = r at h ⊢
  obtain ⟨r, st'⟩ := r
  obtain rfl : r = .ok (.number x) := h
  rfl

theorem Agrees.selects_number {x : Float} {st : Store} {nodes : List Pointer} {i : Nat}
    (h : Agrees (.number x) st (s.judge base e nodes i)) :
    s.selects base e nodes i = (x == Number.ofNat i) ∧ (s.judge base e nodes i).1 = .ok (.number x) := by
  obtain ⟨d', hok, hnumber, -⟩ := h
  obtain rfl := (hnumber x).mp rfl
  exact ⟨Surroundings.selects_number hok, hok⟩

theorem Agrees.selects_truth {d : Datum} {st : Store} {nodes : List Pointer} {i : Nat}
    (h : Agrees d st (s.judge base e nodes i)) (hd : ∀ x, d ≠ .number x) :
    s.selects base e nodes i = d.toBoolean st ∧ ∀ x, (s.judge base e nodes i).1 ≠ .ok (.number x) := by
  obtain ⟨d', hok, hnumber, htruth⟩ := h
  have hd' : ∀ x, d' ≠ .number x := fun x hx => hd x ((hnumber x).mpr hx)
  unfold Surroundings.selects
  generalize s.judge base e nodes i = r at hok htruth ⊢
  obtain ⟨r, st'⟩ := r
  obtain rfl : r = .ok d' := hok
  refine ⟨?_, fun x hx => hd' x (by cases hx; rfl)⟩
  rw [htruth]
  cases d' <;> first | rfl | exact absurd rfl (hd' _)

/-- The one node of a list whose position is `k`. -/
theorem filter_zipIdx_eq (l : List Pointer) (n k : Nat) :
    ((l.zipIdx n).filter fun p => k == p.2).map (·.1) = if n ≤ k then l[k - n]?.toList else [] := by
  induction l generalizing n with
  | nil => simp
  | cons a l ih =>
    rw [List.zipIdx_cons, List.filter_cons]
    by_cases hk : k = n
    · subst hk
      simp [ih]
    · simp only [beq_iff_eq, hk, if_false, ih]
      by_cases hn : n ≤ k
      · rw [if_pos (by omega), if_pos hn, show k - n = (k - (n + 1)) + 1 by omega, List.getElem?_cons_succ]
      · rw [if_neg (by omega), if_neg hn]

/-- **A predicate that is one number selects one position.** -/
theorem keep_of_number {nodes : List Pointer} {x : Float} (hlen : nodes.length ≤ Number.exactBound)
    (hx : ∀ i, s.selects base e nodes i = (x == Number.ofNat i)) :
    s.keep base e nodes =
      if Number.isWhole x && x >= 1 then nodes[Number.toIndex x - 1]?.toList else [] := by
  have hfilter : ((nodes.zipIdx 1).filter fun p => s.selects base e nodes p.2) =
      (nodes.zipIdx 1).filter fun p => (Number.isWhole x && x >= 1) && Number.toIndex x == p.2 := by
    refine List.filter_congr fun p hp => ?_
    obtain ⟨h1, h2, -⟩ := List.mem_zipIdx hp
    rw [hx, Number.beq_ofNat h1 (by omega)]
  rw [Surroundings.keep, hfilter]
  cases hg : (Number.isWhole x && decide (x >= 1)) with
  | false => simp
  | true =>
    have hone : 1 ≤ Number.toIndex x := by
      rw [Bool.and_eq_true, decide_eq_true_iff] at hg
      exact Number.one_le_toIndex hg.1 hg.2
    simp only [Bool.true_and, filter_zipIdx_eq, if_pos hone, if_true]

/-- What the search of a condition comes to, as far as it concerns the stages before. -/
def Found (base : Store) (s : Surroundings) (stands : Cursor → Place → Prop) (sets : List (List Pointer)) (e : Expr)
    (j : Nat) (rest : List Pointer) (found : Motion.Match) (c : Cursor) : Prop :=
  match found with
  | .missing => rest = [] ∧ ∃ k, stands c (.within j k) ∧ s.keepFrom base e (nthSet sets j) k = rest ∧
      (e.isContextDependent = false → k = 0 ∨ ¬s.IsNumber base e)
  | .node p? => ∃ k q, p? = some q ∧ stands c (.within j k) ∧
      rest = q :: s.keepFrom base e (nthSet sets j) k ∧ (e.isContextDependent = false → ¬s.IsNumber base e)
  | .position x => rest = s.keep base e (nthSet sets j) ∧ (∃ k, stands c (.within j k)) ∧
      ∀ i, s.selects base e (nthSet sets j) i = (x == Number.ofNat i)

/-- Whatever is found, the stages before are still in their set. -/
theorem Found.inSet {j : Nat} {rest : List Pointer} {found : Motion.Match} {c : Cursor}
    (h : Found base s stands sets e j rest found c) : ∃ k, stands c (.within j k) := by
  cases found with
  | missing =>
    obtain ⟨-, k, hc, -⟩ := h
    exact ⟨k, hc⟩
  | node p? =>
    obtain ⟨k, -, -, hc, -⟩ := h
    exact ⟨k, hc⟩
  | position x => exact h.2.1

/-- **Unfinished** says that a search goes on: the predicate selects as much of what the stages before have left as
was left when the search began. -/
def Unfinished (base : Store) (s : Surroundings) (stands : Cursor → Place → Prop) (sets : List (List Pointer)) (e : Expr)
    (j : Nat) (rest : List Pointer) (c : Cursor) : Prop :=
  ∃ k, stands c (.within j k) ∧ s.keepFrom base e (nthSet sets j) k = rest ∧
    (e.isContextDependent = false → k = 0 ∨ ¬s.IsNumber base e)

/-- What looking at one node comes to. -/
def Looked (base : Store) (s : Surroundings) (stands : Cursor → Place → Prop) (sets : List (List Pointer)) (e : Expr)
    (j : Nat) (rest : List Pointer) : Option Motion.Match → Cursor → Prop
  | some found, c => Found base s stands sets e j rest found c
  | none, c => Unfinished base s stands sets e j rest c

/-- Whether the value of a predicate selects the node that a cursor is at. -/
def Motion.verdict : Datum → Walk Bool
  | .number x => do pure (x == Number.ofNat (← Walk.frame).position)
  | d => do pure (d.toBoolean (← Walk.store))

/-- A node that is selected ends the search. -/
def Motion.settle (up : Motion) (selected : Bool) : Walk (Option Motion.Match) :=
  if selected then (do pure (some (.node (← up.current)))) else pure none

/-- What follows from the value of a predicate. -/
def Motion.conclude (up : Motion) (d : Datum) (positional : Bool) : Walk (Option Motion.Match) :=
  match d, positional with
  | .number x, true => pure (some (.position x))
  | d, _ => verdict d >>= up.settle

/-- Looking at one node is moving on to it, evaluating the predicate there, and drawing the conclusion. -/
theorem Motion.tryNext_eq (up : Motion) (e : Expr) (positional : Bool) :
    up.tryNext s e positional = (do
      if !(← up.nextNode) then pure (some .missing) else up.conclude (← s.test up e) positional) := by
  unfold tryNext
  congr 1
  funext found
  congr 2
  funext d
  cases d <;> cases positional <;> rfl

/-- A value is either a position to go to, or it says whether the node is selected. -/
theorem Motion.conclude_cases (up : Motion) (d : Datum) (positional : Bool) :
    (∃ x, d = .number x ∧ positional = true ∧ up.conclude d positional = pure (some (.position x))) ∨
      ((positional = true → ∀ x, d ≠ .number x) ∧ up.conclude d positional = verdict d >>= up.settle) := by
  cases d with
  | number x =>
    cases positional with
    | true => exact .inl ⟨x, rfl, rfl, rfl⟩
    | false => exact .inr ⟨nofun, rfl⟩
  | _ => exact .inr ⟨nofun, rfl⟩

/-- A verdict moves nothing. -/
theorem Motion.runOn_verdict (d : Datum) (c : Cursor) (st : Store) :
    ∃ selected, (verdict d).runOn c st = (.ok selected, c, st) := by
  cases d <;> exact ⟨_, rfl⟩

variable {j k : Nat} {rest : List Pointer} {c : Cursor}

/-- A verdict is the judgement of the node. -/
theorem Agrees.runOn_verdict {d : Datum} {st : Store} {nodes : List Pointer}
    (h : Agrees d st (s.judge base e nodes c.frame.position)) :
    (Motion.verdict d).runOn c st = (.ok (s.selects base e nodes c.frame.position), c, st) := by
  have htruth : (∀ x, d ≠ .number x) → s.selects base e nodes c.frame.position = d.toBoolean st := fun hd =>
    (h.selects_truth hd).1
  cases d with
  | number x =>
    rw [h.selects_number.1]
    rfl
  | _ =>
    rw [htruth fun _ hx => by cases hx]
    rfl

/-- Once it is known whether a node is selected, the search ends there or goes on behind it. -/
theorem Traverses.settle (h : Traverses base up stands sets) (hk : k < (nthSet sets j).length)
    (hc : stands c (.within j (k + 1))) (hrest : s.keepFrom base e (nthSet sets j) k = rest)
    (hnot : e.isContextDependent = false → ¬s.IsNumber base e) :
    (up.settle (s.selects base e (nthSet sets j) (k + 1))).Ensures base c
      (Looked base s stands sets e j rest) := by
  rw [Surroundings.keepFrom_of_lt e hk] at hrest
  cases hb : s.selects base e (nthSet sets j) (k + 1) with
  | true =>
    rw [hb, if_pos rfl] at hrest
    refine (h.current hc _ (List.getElem?_eq_getElem hk)).bind fun p? c₁ hc₁ => .pure ?_
    exact ⟨k + 1, _, hc₁.2, hc₁.1, hrest.symm, hnot⟩
  | false =>
    rw [hb, if_neg Bool.false_ne_true] at hrest
    exact .pure ⟨k + 1, hc, hrest, fun hd => .inr (hnot hd)⟩

/-- What is concluded at a node ends the search or leaves what was left. -/
theorem Traverses.conclude (h : Traverses base up stands sets) (hs : Grounded base s) (hk : k < (nthSet sets j).length)
    (hc : stands c (.within j (k + 1))) (hrest : s.keepFrom base e (nthSet sets j) k = rest)
    (hconst : e.isContextDependent = false → k = 0 ∨ ¬s.IsNumber base e) {d : Datum} {st : Store}
    (hst : base.Extends st) (hagrees : Agrees d st (s.judge base e (nthSet sets j) (k + 1)))
    {found? : Option Motion.Match} {c' : Cursor} {st' : Store}
    (hrun : (up.conclude d (!e.isContextDependent)).runOn c st = (.ok found?, c', st')) :
    st.Extends st' ∧ Looked base s stands sets e j rest found? c' := by
  rcases up.conclude_cases d (!e.isContextDependent) with ⟨x, rfl, hpositional, heq⟩ | ⟨hnumber, heq⟩
  · -- A predicate that is one number for all nodes is found out at the first one, before anything was passed over.
    have hd : e.isContextDependent = false := by simpa using hpositional
    have hjudge := hagrees.selects_number.2
    obtain rfl : k = 0 := (hconst hd).resolve_right fun hno => hno ⟨x, (hs.judge_constant hd _ _ _ _ x).mp hjudge⟩
    have hfound : Found base s stands sets e j rest (.position x) c := ⟨hrest.symm, ⟨_, hc⟩, fun i =>
      Surroundings.selects_number ((hs.judge_constant hd _ _ _ _ x).mp hjudge)⟩
    rw [heq] at hrun
    exact Walk.Ensures.pure (a := some (.position x)) (Q := Looked base s stands sets e j rest) hfound st hst _ _ _ hrun
  · have hposition : c.frame.position = k + 1 := (h.faces hc).2.1
    rw [← hposition] at hagrees
    rw [heq, Walk.runOn_bind, hagrees.runOn_verdict, hposition] at hrun
    refine h.settle hk hc hrest (fun hd => ?_) st hst _ _ _ hrun
    rintro ⟨x, hx⟩
    have hno := (hagrees.selects_truth (hnumber (by simp [hd]))).2
    exact hno x ((hs.judge_constant hd _ _ _ _ x).mp hx)

/-- Looking at one node either ends the search or leaves what was left. -/
theorem Traverses.tryNext (h : Traverses base up stands sets) (hs : Grounded base s) (hr : Realm base has)
    (hcover : Realm.Covers has sets) (hc : stands c (.within j k))
    (hrest : s.keepFrom base e (nthSet sets j) k = rest)
    (hconst : e.isContextDependent = false → k = 0 ∨ ¬s.IsNumber base e) :
    (up.tryNext s e (!e.isContextDependent)).Ensures base c (Looked base s stands sets e j rest) := by
  rw [Motion.tryNext_eq]
  refine (h.nextNode_within hc).bind fun found c₁ hc₁ => ?_
  obtain ⟨rfl, hk, hc₁⟩ | ⟨rfl, hk, hc₁⟩ := hc₁
  · have hwithin := hr.within (hcover.nodes (List.getElem_mem hk))
    refine .bind_run fun st hst d c₂ st₁ hrun => ?_
    obtain ⟨hext, hc₂, hagrees⟩ := h.test hs e hc₁ hk hwithin hst hrun
    exact ⟨hext, fun found? c' st' hrun' => h.conclude hs hk hc₂ hrest hconst (hst.trans hext) hagrees hrun'⟩
  · have hnil : rest = [] := hrest ▸ Surroundings.keepFrom_of_length_le e hk
    exact .pure ⟨hnil, k, hc₁, hrest, hconst⟩

/-- **Searching** ends with what is left of the set, if the search goes on as long as nothing is found. -/
theorem Traverses.search (h : Traverses base up stands sets) (hs : Grounded base s) (hr : Realm base has)
    (hcover : Realm.Covers has sets) (hc : stands c (.within j k)) (hrest : s.keepFrom base e (nthSet sets j) k = rest)
    (hconst : e.isContextDependent = false → k = 0 ∨ ¬s.IsNumber base e) :
    (Walk.repeatUntil (up.tryNext s e (!e.isContextDependent))).Ensures base c
      (Found base s stands sets e j rest) := by
  refine .repeatUntil (I := Unfinished base s stands sets e j rest) ?_ ⟨k, hc, hrest, hconst⟩
  rintro c ⟨k, hc, hrest, hconst⟩
  refine (h.tryNext hs hr hcover hc hrest hconst).mono fun found? c' hlooked => ?_
  cases found? <;> exact hlooked

/-- **A position that is a number is gone to** when it is that of a node. -/
theorem Traverses.nodeAt (h : Traverses base up stands sets) (hc : stands c (.within j k)) (x : Float) :
    (up.nodeAt x).Ensures base c fun p? c' => (∃ k, stands c' (.within j k)) ∧
      p?.toList = if Number.isWhole x && x >= 1 then (nthSet sets j)[Number.toIndex x - 1]?.toList else [] := by
  refine .ite (fun hx => ?_) fun hx => ?_
  · rw [if_pos hx]
    have hone : 1 ≤ Number.toIndex x := by
      rw [Bool.and_eq_true, decide_eq_true_iff] at hx
      exact Number.one_le_toIndex hx.1 hx.2
    obtain ⟨i, hi⟩ : ∃ i, Number.toIndex x = i + 1 := ⟨Number.toIndex x - 1, by omega⟩
    rw [hi, Nat.add_sub_cancel]
    refine (h.setPosition hc (i + 1)).bind fun found c₁ hc₁ => ?_
    obtain ⟨k', hc₁, rfl, hk'⟩ := hc₁
    by_cases hlen : i < (nthSet sets j).length
    · have hle : i + 1 ≤ (nthSet sets j).length := hlen
      simp only [hle, decide_true, if_true, forall_const] at hk' ⊢
      subst hk'
      have hnode := List.getElem?_eq_getElem hlen
      refine (h.current hc₁ _ hnode).mono fun p? c₂ hc₂ => ⟨⟨_, hc₂.1⟩, ?_⟩
      rw [hc₂.2, hnode]
    · have hle : ¬i + 1 ≤ (nthSet sets j).length := hlen
      simp only [hle, decide_false, Bool.false_eq_true, if_false]
      exact .pure ⟨⟨_, hc₁⟩, by rw [List.getElem?_eq_none (Nat.le_of_not_lt hlen)]⟩
  · rw [if_neg hx]
    exact .pure ⟨⟨_, hc⟩, rfl⟩

/-- A list of at most one node that is left as a whole. -/
theorem getElem?_of_drop_eq {kept : List Pointer} {p? : Option Pointer} {i : Nat} (hp : p?.toList = kept)
    (hdrop : kept.drop i = kept) : p? = kept[i]? ∧ kept.length ≤ if p?.isSome then i + 1 else i := by
  subst hp
  cases p? with
  | none => exact ⟨rfl, Nat.zero_le _⟩
  | some p =>
    obtain rfl : i = 0 := by
      have := congrArg List.length hdrop
      simp at this
      omega
    exact ⟨rfl, Nat.le_refl 1⟩

/-- **A condition is produced** by looking for the next node that its predicate selects. -/
theorem Traverses.nextMatching (h : Traverses base up stands sets) (hs : Grounded base s) (hr : Realm base has)
    (hcover : Realm.Covers has sets) {i : Nat} {done : Bool}
    (hstage : c.frame.stage = .condition e (!e.isContextDependent) done)
    (hc : ConditionAt base s stands sets e c (.within j i)) :
    (up.nextMatching s e (!e.isContextDependent) done).Ensures base c fun p? c' =>
      (∃ stage, c'.frame = { c.frame with stage }) ∧ p? = (s.keep base e (nthSet sets j))[i]? ∧
        ConditionAt base s stands sets e c' (.within j (if p?.isSome then i + 1 else i)) := by
  cases hc with
  | @done f c₀ _ _ k hdone hup hlen =>
    obtain rfl : done = true := by rw [hstage] at hdone; cases hdone; rfl
    rw [Motion.nextMatching, if_pos rfl]
    exact .pure ⟨⟨f.stage, rfl⟩, (List.getElem?_eq_none hlen).symm, .done hdone hup hlen⟩
  | @searching f c₀ _ _ k hsearching hup hrest hconst =>
    obtain rfl : done = false := by rw [hstage] at hsearching; cases hsearching; rfl
    rw [Motion.nextMatching, if_neg Bool.false_ne_true]
    -- A search that comes to a position ends the set: the predicate is a number, the same for all of its nodes.
    have hsearch := h.search hs hr hcover hup hrest hconst
    refine (Walk.Ensures.inEarlier (f := f) (Q := fun found c' => ∃ c₁, c' = ⟨f, c₁.frame :: c₁.earlier⟩ ∧
      Found base s stands sets e j ((s.keep base e (nthSet sets j)).drop i) found c₁)
      (hsearch.mono fun found c₁ hc₁ => ⟨c₁, rfl, hc₁⟩)).bind fun found c' hc' => ?_
    obtain ⟨c₁, rfl, hfound⟩ := hc'
    cases found with
    | missing =>
      obtain ⟨hnil, k', hc₁, hrest', hconst'⟩ := hfound
      have hnone : (s.keep base e (nthSet sets j))[i]? = none :=
        List.getElem?_eq_none (List.drop_eq_nil_iff.mp hnil)
      exact .pure ⟨⟨f.stage, rfl⟩, hnone.symm, .searching hsearching hc₁ hrest' hconst'⟩
    | node p? =>
      obtain ⟨k', q, rfl, hc₁, hrest', hnot⟩ := hfound
      have hq : (s.keep base e (nthSet sets j))[i]? = some q := by rw [← List.head?_drop, hrest']; rfl
      refine .pure ⟨⟨f.stage, rfl⟩, hq.symm, .searching hsearching hc₁ ?_ fun hd => .inr (hnot hd)⟩
      rw [Option.isSome_some, if_pos rfl, ← List.tail_drop, hrest']
      rfl
    | position x =>
      obtain ⟨hwhole, ⟨k', hc₁⟩, hselects⟩ := hfound
      refine (Walk.Ensures.modifyFrame (Q := fun _ c' =>
        c' = ⟨{ f with stage := .condition e (!e.isContextDependent) true }, c₁.frame :: c₁.earlier⟩) rfl).bind
          fun _ c' hc' => ?_
      subst hc'
      refine .inEarlier ((h.nodeAt hc₁ x).mono fun p? c₂ hc₂ => ?_)
      obtain ⟨⟨k'', hc₂⟩, hp⟩ := hc₂
      rw [← keep_of_number (hcover.narrow j) hselects] at hp
      obtain ⟨hnode, hlen⟩ := getElem?_of_drop_eq hp hwhole
      exact ⟨⟨_, rfl⟩, hnode, .done rfl hc₂ hlen⟩

/-- **A condition makes one set of each set of the stages before it.** -/
theorem Traverses.supplies_condition (h : Traverses base up stands sets) (hs : Grounded base s) (hr : Realm base has)
    (hcover : Realm.Covers has sets) (e : Expr) :
    Supplies base s up (ConditionAt base s stands sets e) (sets.map (s.keep base e)) where
  natural := h.natural
  settled := by
    rintro _ _ hc w hw
    obtain ⟨f, c, q, done, rfl, hstage, hup, -⟩ := hc.stages
    have hsettled := h.settled hup w hw
    exact ⟨by rw [hstage]; exact .condition _ _ _, .cons hsettled.frame hsettled.earlier⟩
  nodes := by
    intro j p hp w hw
    rw [nthSet_keep] at hp
    exact hr.alike (hcover.nodes (Surroundings.mem_of_mem_keep hp)) hw
  order := by
    intro _ _ _ _ hc hc'
    obtain ⟨f, c, q, done, rfl, hstage, hup, -⟩ := hc.stages
    obtain ⟨f', c', q', done', rfl, hstage', hup', -⟩ := hc'.stages
    obtain ⟨horder, hsorts⟩ := Cursor.order_condition (c := c) hstage
    obtain ⟨horder', hsorts'⟩ := Cursor.order_condition (c := c') hstage'
    rw [horder, horder', hsorts, hsorts', (h.order hup hup').2]
    exact ⟨rfl, rfl⟩
  stage := by
    rintro f g fs p hc hg
    cases hc with
    | before hstage hup => exact .before (hg.trans hstage) hup
    | searching hstage hup hrest hconst => exact .searching (hg.trans hstage) hup hrest hconst
    | done hstage hup hlen => exact .done (hg.trans hstage) hup hlen
    | after done hstage hup => exact .after done (hg.trans hstage) hup
  rewound := by
    rintro _ _ hc
    cases hc with
    | before hstage hup =>
      rw [Cursor.rewound_condition hstage]
      exact .before (Cursor.Frame.rewound_condition hstage) (h.rewound hup)
    | searching hstage hup hrest hconst =>
      rw [Cursor.rewound_condition hstage]
      exact .searching (Cursor.Frame.rewound_condition hstage) (h.rewound hup) rfl fun _ => .inl rfl
    | done hstage hup hlen =>
      rw [Cursor.rewound_condition hstage]
      exact .searching (Cursor.Frame.rewound_condition hstage) (h.rewound hup) rfl fun _ => .inl rfl
    | after done hstage hup =>
      rw [Cursor.rewound_condition hstage]
      exact .after false (Cursor.Frame.rewound_condition hstage) (h.rewound hup)
  findSet := by
    rintro _ p hc hfaces hafter hfresh
    obtain ⟨f, c, q, done, rfl, hstage, hup, hnext⟩ := hc.stages
    -- A condition is not done with the set that is to come.
    obtain rfl : done = false := by
      rw [hstage] at hfresh
      cases hfresh
      rfl
    have hfind : up.findSet f = Walk.inEarlier false up.nextSet := by simp only [Motion.findSet, hstage]
    rw [hfind, hnext hafter]
    refine .inEarlier ((h.nextSet hup).mono fun found c' hc' => ⟨rfl, ?_, hc'.2⟩)
    rcases Place.nextSet_eq sets q with ⟨j, hq, -⟩ | ⟨hq, -⟩
    · rw [hq] at hc' ⊢
      exact .searching hstage hc'.1 rfl fun _ => .inl rfl
    · rw [hq] at hc' ⊢
      exact .after false hstage hc'.1
  produce := by
    rintro _ j i hc hposition
    rw [nthSet_keep]
    refine .frame_bind ?_
    cases hc with
    | searching hstage hup hrest hconst =>
      simp only [hstage]
      exact h.nextMatching hs hr hcover hstage (.searching hstage hup hrest hconst)
    | done hstage hup hlen =>
      simp only [hstage]
      exact h.nextMatching hs hr hcover hstage (.done hstage hup hlen)
  known := by
    rintro _ j i k found hc hknown
    obtain ⟨f, c, q, done, rfl, hstage, -⟩ := hc.stages
    rw [hstage] at hknown
    cases hknown
  single := by
    rintro _ p origin hc hsingle
    obtain ⟨f, c, q, done, rfl, hstage, -⟩ := hc.stages
    rw [hstage] at hsingle
    cases hsingle

end

end NodePath
