/-
# NodePath.Proofs.RandomAccess — a cursor as random access to its sets

Whoever holds a cursor sees its sets only through the moves that there are: to the next set or node, to a position,
back to the start of the set or of everything, the node at the position, and the list of the set. A **plain cursor**
is nothing but a place among sets that are given as lists, and what it answers to a move is read off these lists.
A cursor that is sure to make its moves answers every sequence of them as the plain cursor does.

* §A  `Place.goTo` and what can be seen at a place.
* §B  `Move`, and how a plain cursor and a cursor of a motion make it.
* §C  `Walk.Yields`: what a walk is sure to come to.
* §D  `Surefooted`: cursors that are sure to go on.
* §E  Positions and lists.
* §F  One move, and sequences of moves.
-/
import NodePath.Proofs.Working

namespace NodePath

/-! ## §A  Places -/

namespace Place

variable (sets : List (List Pointer))

/-- The position in the present set; zero outside of all sets. -/
def position : Place → Nat
  | within _ i => i
  | _ => 0

/-- The node at a place; before the first node of a set there is none. -/
def node : Place → Option Pointer
  | within j (i + 1) => (nthSet sets j)[i]?
  | _ => none

/-- **goTo** is the place at a position of the present set, or of the first set when none was entered. In a set that
is shorter it is the place at the last node. -/
def goTo (k : Nat) (p : Place) : Place :=
  if k = 0 then p.rewound
  else
    match p.entered sets with
    | within j _ => within j (min k (nthSet sets j).length)
    | q => q

/-- The nodes of the present set, or of the first set when none was entered. -/
def listed (p : Place) : List Pointer :=
  match p.entered sets with
  | within j _ => nthSet sets j
  | _ => []

/-- **IsIn** says that a place is no further than at the last node of its set. -/
def IsIn (p : Place) : Prop := ∀ j i, p = within j i → i ≤ (nthSet sets j).length

end Place

/-! ## §B  Moves -/

/-- **Move** is what a cursor can be told to do. -/
inductive Move where
  | nextSet
  | nextNode
  | setPosition (k : Nat)
  | rewind
  | current
  | listSet
  | restart

/-- What a cursor answers to a move. -/
inductive Answer where
  | found (b : Bool)
  | node (p? : Option Pointer)
  | nodes (ps : List Pointer)
  | done

/-- **plain** is what a plain cursor answers to a move, and the place that it goes to. -/
def Move.plain (sets : List (List Pointer)) (p : Place) : Move → Answer × Place
  | nextSet => (.found (p.nextSet sets).isWithin, p.nextSet sets)
  | nextNode => (.found ((p.entered sets).hasNext sets), p.nextNode sets)
  | setPosition k => (.found ((p.goTo sets k).position == k), p.goTo sets k)
  | rewind => (.done, p.rewound)
  | current =>
    let q := if p.position = 0 then p.goTo sets 1 else p
    (.node (q.node sets), q)
  | listSet => (.nodes (p.listed sets), p.entered sets)
  | restart => (.done, .before)

/-- The answers of a plain cursor to a sequence of moves, each with the position that it leads to. -/
def Place.answers (sets : List (List Pointer)) : Place → List Move → List (Answer × Nat)
  | _, [] => []
  | p, a :: moves =>
    ((a.plain sets p).1, (a.plain sets p).2.position) :: answers sets (a.plain sets p).2 moves

/-- A set that is shorter than the position, and a set without nodes. -/
example (p q : Pointer) : Place.before.answers [[p, q], []] [.current, .listSet, .setPosition 9, .nextSet, .current] =
    [(.node (some p), 1), (.nodes [p, q], 1), (.found false, 2), (.found true, 0), (.node none, 0)] := rfl

/-- **make** is how the cursors of a motion make a move. -/
def Motion.make (m : Motion) : Move → Walk Answer
  | .nextSet => do pure (.found (← m.nextSet))
  | .nextNode => do pure (.found (← m.nextNode))
  | .setPosition k => do pure (.found (← m.setPosition k))
  | .rewind => do Walk.move Cursor.rewound; pure .done
  | .current => do pure (.node (← m.current))
  | .listSet => do pure (.nodes (← m.listSet))
  | .restart => do Walk.move Cursor.restarted; pure .done

/-- The answers of a cursor to a sequence of moves, each with the position that it leads to. -/
def Motion.answers (m : Motion) : List Move → Walk (List (Answer × Nat))
  | [] => pure []
  | a :: moves => do
    let answer ← m.make a
    let position := (← Walk.frame).position
    pure ((answer, position) :: (← m.answers moves))

/-! ## §C  Yielding -/

/-- **Yields** says that a walk does not fail, and what it has come to when it answers. -/
structure Walk.Yields {α : Type} (base : Store) (m : Walk α) (c : Cursor) (Q : α → Cursor → Prop) : Prop where
  works : m.Works base c
  ensures : m.Ensures base c Q

namespace Walk.Yields

variable {α β : Type} {base : Store} {c : Cursor} {Q : α → Cursor → Prop} {R : β → Cursor → Prop}

theorem pure {a : α} (h : Q a c) : Yields base (Pure.pure a) c Q := ⟨.pure a, .pure h⟩

theorem bind {m : Walk α} {f : α → Walk β} (h : Yields base m c Q) (hf : ∀ a c', Q a c' → Yields base (f a) c' R) :
    Yields base (m >>= f) c R :=
  ⟨.bind h.works h.ensures fun a c' hc' => (hf a c' hc').works, h.ensures.bind fun a c' hc' => (hf a c' hc').ensures⟩

theorem frame_bind {f : Frame → Walk β} (h : Yields base (f c.frame) c R) : Yields base (Walk.frame >>= f) c R :=
  ⟨.frame_bind h.works, .frame_bind h.ensures⟩

/-- Moving, and what follows from there. -/
theorem move_bind {f : Cursor → Cursor} {g : Unit → Walk β} (h : Yields base (g ()) (f c) R) :
    Yields base (Walk.move f >>= g) c R :=
  ⟨.move_bind h.works, (Ensures.move (Q := fun _ c' => c' = f c) rfl).bind fun _ _ hc => hc ▸ h.ensures⟩

/-- Reading the store. -/
theorem store_bind {f : Store → Walk β} (h : ∀ st, base.Extends st → Yields base (f st) c R) :
    Yields base (Walk.store >>= f) c R :=
  ⟨.store_bind fun st hst => (h st hst).works, .store_bind fun st hst => (h st hst).ensures⟩

/-- Taking an outcome as an answer. -/
theorem attempt_bind {m : Walk α} {f : Except EvalError α → Walk β} (h : Yields base m c Q)
    (hf : ∀ a c', Q a c' → Yields base (f (.ok a)) c' R) : Yields base (Walk.attempt m >>= f) c R := by
  have hrun : ∀ st, base.Extends st → ∃ a c₁ st₁, Q a c₁ ∧ st.Extends st₁ ∧
      (Walk.attempt m >>= f).runOn c st = (f (.ok a)).runOn c₁ st₁ := by
    intro st hst
    obtain ⟨a, c₁, st₁, hm⟩ := h.works st hst
    obtain ⟨hext, hq⟩ := h.ensures st hst a c₁ st₁ hm
    exact ⟨a, c₁, st₁, hq, hext, by rw [runOn_bind, runOn_attempt, hm]⟩
  constructor
  · intro st hst
    obtain ⟨a, c₁, st₁, hq, hext, hsame⟩ := hrun st hst
    obtain ⟨b, c₂, st₂, hf'⟩ := (hf a c₁ hq).works st₁ (hst.trans hext)
    exact ⟨b, c₂, st₂, hsame.trans hf'⟩
  · intro st hst b c' st' hall
    obtain ⟨a, c₁, st₁, hq, hext, hsame⟩ := hrun st hst
    obtain ⟨hext', hr⟩ := (hf a c₁ hq).ensures st₁ (hst.trans hext) b c' st' (hsame.symm.trans hall)
    exact ⟨hext.trans hext', hr⟩

theorem ite {p : Prop} [Decidable p] {m n : Walk α} (hm : p → Yields base m c Q) (hn : ¬p → Yields base n c Q) :
    Yields base (if p then m else n) c Q := by
  split
  · exact hm ‹_›
  · exact hn ‹_›

theorem mono {m : Walk α} {weaker : α → Cursor → Prop} (h : Yields base m c Q)
    (hw : ∀ a c', Q a c' → weaker a c') : Yields base m c weaker :=
  ⟨h.works, h.ensures.mono hw⟩

/-- What is yielded, with what holds of every answer. -/
theorem and {m : Walk α} {P : α → Cursor → Prop} (h : Yields base m c Q) (hP : m.Ensures base c P) :
    Yields base m c fun a c' => Q a c' ∧ P a c' :=
  ⟨h.works, h.ensures.and hP⟩

/-- What runs the same in every store is sure. -/
theorem of_runOn {m : Walk α} {a : α} {c' : Cursor} (h : ∀ st, m.runOn c st = (.ok a, c', st)) (hQ : Q a c') :
    Yields base m c Q := by
  refine ⟨fun st _ => ⟨a, c', st, h st⟩, fun st hst b d st' hrun => ?_⟩
  rw [h] at hrun
  cases hrun
  exact ⟨.refl hst.sound, hQ⟩

/-- Two walks that run alike yield alike. -/
theorem congr {m n : Walk α} {d : Cursor} (h : Yields base m c Q) (hrun : ∀ st, n.runOn d st = m.runOn c st) :
    Yields base n d Q :=
  ⟨fun st hst => by rw [hrun]; exact h.works st hst,
    fun st hst a c' st' hn => h.ensures st hst a c' st' (by rw [← hrun]; exact hn)⟩

/-- A repetition comes to what its last round comes to, if every other round leaves less to do. -/
theorem repeatUntil {m : Walk (Option α)} {I : Nat → Cursor → Prop}
    (hm : ∀ n c, I n c → Yields base m c fun a? c' =>
      (∀ a, a? = some a → Q a c') ∧ (a? = none → ∃ n' < n, I n' c'))
    {n : Nat} (hn : n < Walk.limit) (hc : I n c) : Yields base (Walk.repeatUntil m) c Q where
  works := Works.repeatUntil (fun n c hc => ⟨(hm n c hc).works, (hm n c hc).ensures.mono fun _ _ h => h.2⟩) hn hc
  ensures := by
    refine Ensures.repeatUntil (I := fun c => ∃ n, I n c) ?_ ⟨n, hc⟩
    rintro c ⟨n, hc⟩
    refine (hm n c hc).ensures.mono fun a? c' hc' => ?_
    cases a? with
    | some a => exact hc'.1 a rfl
    | none =>
      obtain ⟨n', -, hc'⟩ := hc'.2 rfl
      exact ⟨n', hc'⟩

/-- A walk that answers the elements of a list one by one, and behind them nothing, is collected to that list. -/
theorem collectAll {m : Walk (Option α)} {I : List α → Cursor → Prop} {J : Cursor → Prop}
    (hm : ∀ l c, I l c → Yields base m c fun a? c' => a? = l.head? ∧ if l = [] then J c' else I l.tail c')
    {l : List α} (hl : l.length < Walk.limit) (hc : I l c) :
    Yields base (Walk.collectAll m) c fun as c' => as = l ∧ J c' := by
  have hround : ∀ times l taken c, l.length < times → I l c →
      Yields base (Walk.collect m times taken) c fun as c' => as = taken.reverse ++ l ∧ J c' := by
    intro times
    induction times with
    | zero => exact fun _ _ _ hl => absurd hl (Nat.not_lt_zero _)
    | succ times ih =>
      intro l taken c hl hc
      refine bind (hm l c hc) fun a? c' hc' => ?_
      obtain ⟨rfl, hc'⟩ := hc'
      cases l with
      | nil => exact pure ⟨by simp, hc'⟩
      | cons a l =>
        refine (ih l (a :: taken) c' (by simpa using hl) hc').mono fun as c'' hc'' => ⟨?_, hc''.2⟩
        simpa using hc''.1
  exact (hround _ l [] c hl hc).mono fun as c' hc' => ⟨by simpa using hc'.1, hc'.2⟩

end Walk.Yields

/-! ## §D  Sure cursors -/

/-- **Surefooted** says that the cursors that `stands` places among `sets` are sure to go on to the next set and to the
next node, and can go back. Their last stage has to look for its nodes. -/
structure Surefooted (base : Store) (m : Motion) (stands : Cursor → Place → Prop) (sets : List (List Pointer)) :
    Prop where
  faces : ∀ {c p}, stands c p → c.frame.Faces sets p
  isIn : ∀ {c p}, stands c p → p.IsIn sets
  searches : ∀ {c p}, stands c p → ∀ k, Motion.knownAt? k c.frame.stage = none
  rewound : ∀ {c p}, stands c p → stands c.rewound p.rewound
  restarted : ∀ {c p}, stands c p → stands c.restarted .before
  nextSet : ∀ {c p}, stands c p → m.nextSet.Yields base c fun found c' =>
    stands c' (p.nextSet sets) ∧ found = (p.nextSet sets).isWithin
  nextNode : ∀ {c p}, stands c p → m.nextNode.Yields base c fun found c' =>
    stands c' (p.nextNode sets) ∧ found = (p.entered sets).hasNext sets
  short : ∀ j, (nthSet sets j).length < Walk.limit

namespace Place

variable {sets : List (List Pointer)} {p q : Place} {k : Nat}

theorem position_rewound (p : Place) : p.rewound.position = 0 := by
  cases p <;> rfl

theorem position_entered (sets : List (List Pointer)) (p : Place) : (p.entered sets).position = p.position := by
  cases p with
  | before =>
    simp only [entered, nextSet]
    split <;> rfl
  | within j i => rfl
  | after => rfl

/-- **opening** is the place before the first node of the present set, or of the first set when none was entered. -/
def opening (sets : List (List Pointer)) (p : Place) : Place := (p.entered sets).rewound

theorem opening_rewound (p : Place) : p.rewound.opening sets = p.opening sets := by
  cases p <;> rfl

theorem opening_entered (p : Place) : (p.entered sets).opening sets = p.opening sets := by
  cases p with
  | before =>
    simp only [opening, entered, nextSet]
    split <;> rfl
  | within j i => rfl
  | after => rfl

theorem opening_forward (p : Place) : p.forward.opening sets = p.opening sets := by
  cases p <;> rfl

/-- The next node is in the same set. -/
theorem opening_nextNode (p : Place) : (p.nextNode sets).opening sets = p.opening sets := by
  unfold nextNode
  split
  · rw [opening_forward, opening_entered]
  · rw [opening_entered]

/-- In one set a position is gone to in one way. -/
theorem goTo_congr (hk : k ≠ 0) (h : p.opening sets = q.opening sets) : p.goTo sets k = q.goTo sets k := by
  unfold goTo opening at *
  rw [if_neg hk, if_neg hk]
  generalize p.entered sets = p', q.entered sets = q' at h ⊢
  cases p' <;> cases q' <;> cases h <;> rfl

theorem listed_congr (h : p.opening sets = q.opening sets) : p.listed sets = q.listed sets := by
  unfold listed opening at *
  generalize p.entered sets = p', q.entered sets = q' at h ⊢
  cases p' <;> cases q' <;> cases h <;> rfl

/-- Going on to a node takes one of those that are listed. -/
theorem nextNode_of_hasNext (h : (p.entered sets).hasNext sets = true) :
    (p.nextNode sets).position = p.position + 1 ∧ p.position < (p.listed sets).length := by
  rw [nextNode, if_pos h, listed, ← position_entered sets p]
  generalize p.entered sets = q at h ⊢
  cases q with
  | before => cases h
  | within j i => exact ⟨rfl, of_decide_eq_true h⟩
  | after => cases h

/-- The node that is gone on to is the next one that is listed. -/
theorem node_nextNode (h : (p.entered sets).hasNext sets = true) :
    (p.nextNode sets).node sets = (p.listed sets)[p.position]? := by
  rw [nextNode, if_pos h, listed, ← position_entered sets p]
  generalize p.entered sets = q at h ⊢
  cases q with
  | before => cases h
  | within j i => rfl
  | after => cases h

/-- Where there is no next node, all that are listed have been passed. -/
theorem length_listed_le (h : ¬(p.entered sets).hasNext sets = true) : (p.listed sets).length ≤ p.position := by
  rw [listed, ← position_entered sets p]
  generalize p.entered sets = q at h ⊢
  cases q with
  | before => exact Nat.zero_le _
  | within j i => exact Nat.le_of_not_lt fun hlt => h (decide_eq_true hlt)
  | after => exact Nat.zero_le _

/-- Behind the last node, a position that is too great is not reached. -/
theorem goTo_of_end (hin : p.IsIn sets) (hk : p.position < k) (h : ¬(p.entered sets).hasNext sets = true) :
    p.goTo sets k = p.entered sets := by
  have hin' : (p.entered sets).IsIn sets := by
    cases p with
    | before =>
      simp only [entered, nextSet]
      intro j i he
      split at he <;> cases he
      exact Nat.zero_le _
    | within j i => exact hin
    | after => exact hin
  -- Where the position is that of the last node, a greater one leads to the same place.
  rw [goTo, if_neg (by omega)]
  rw [← position_entered sets p] at hk
  generalize p.entered sets = q at hin' hk h ⊢
  cases q with
  | before => rfl
  | within j i =>
    have hi : i ≤ (nthSet sets j).length := hin' j i rfl
    have hend : ¬i < (nthSet sets j).length := fun hlt => h (decide_eq_true hlt)
    have hk : i < k := hk
    show within j (min k _) = within j i
    rw [Nat.min_eq_right (by omega), Nat.le_antisymm hi (by omega)]
  | after => rfl

/-- The position that a cursor is at is where it goes to. -/
theorem goTo_position (hin : p.IsIn sets) (hp : p.position ≠ 0) : p.goTo sets p.position = p := by
  cases p with
  | before => exact absurd rfl hp
  | within j i =>
    rw [goTo, if_neg hp]
    show within j (min i _) = within j i
    rw [Nat.min_eq_left (hin j i rfl)]
  | after => exact absurd rfl hp

/-- Whoever has entered the set of a place finds the place again by its position. -/
theorem goTo_back (hin : p.IsIn sets) (hopening : q.opening sets = p.opening sets) (hq : q.entered sets = q) :
    q.goTo sets p.position = p.entered sets := by
  by_cases hp : p.position = 0
  · have hrewound : (p.entered sets).rewound = p.entered sets := by
      rw [← position_entered sets p] at hp
      generalize p.entered sets = p' at hp ⊢
      cases p' with
      | before => rfl
      | within j i =>
        obtain rfl : i = 0 := hp
        rfl
      | after => rfl
    rw [hp, ← hrewound]
    show q.rewound = p.opening sets
    rw [← hopening, opening, hq]
  · rw [goTo_congr hp hopening, goTo_position hin hp]
    cases p with
    | before => exact absurd rfl hp
    | within j i => rfl
    | after => rfl

theorem entered_entered (p : Place) : (p.entered sets).entered sets = p.entered sets := by
  cases p with
  | before =>
    simp only [entered, nextSet]
    split <;> rfl
  | within j i => rfl
  | after => rfl

theorem position_goTo_le (p : Place) (k : Nat) : (p.goTo sets k).position ≤ k := by
  unfold goTo
  split
  · rw [position_rewound]
    exact Nat.zero_le k
  · cases p.entered sets with
    | before => exact Nat.zero_le k
    | within j i => exact Nat.min_le_left _ _
    | after => exact Nat.zero_le k

/-- Before the first node there is none. -/
theorem node_of_position (h : p.position = 0) : p.node sets = none := by
  cases p with
  | before => rfl
  | within j i =>
    obtain rfl : i = 0 := h
    rfl
  | after => rfl

end Place

theorem Frame.Faces.position_eq {f : Frame} {sets : List (List Pointer)} {p : Place} (h : f.Faces sets p) :
    f.position = p.position := by
  cases p <;> exact h.2.1

/-- The current node of a frame is the node at its place. -/
theorem Frame.Faces.current_eq {f : Frame} {sets : List (List Pointer)} {p : Place} (h : f.Faces sets p) :
    f.current = p.node sets := by
  cases p with
  | before => exact h.2.2
  | within j i => cases i <;> exact h.2.2.2
  | after => exact h.2.2

/-! ## §E  Positions and lists -/

namespace Surefooted

variable {base : Store} {s : Surroundings} {up : Motion} {stands : Cursor → Place → Prop}
  {sets : List (List Pointer)} {c : Cursor} {p : Place} {k : Nat}

theorem short_listed (h : Surefooted base (up.next s) stands sets) (p : Place) :
    (p.listed sets).length < Walk.limit := by
  rw [Place.listed]
  cases p.entered sets with
  | within j i => exact h.short j
  | _ => exact show 0 < Walk.limit by decide

/-- Going on to a position ends there, or at the last node. -/
theorem advanceTo (h : Surefooted base (up.next s) stands sets) (hc : stands c p) (hk : p.position < k) :
    (up.advanceTo s k).Yields base c fun found c' =>
      stands c' (p.goTo sets k) ∧ found = ((p.goTo sets k).position == k) := by
  have hshort : (p.listed sets).length - p.position < Walk.limit :=
    Nat.lt_of_le_of_lt (Nat.sub_le _ _) (h.short_listed p)
  -- Every round goes on by one node of the same set, so the nodes that are left of it bound the rounds.
  refine .repeatUntil (I := fun n c => ∃ q, stands c q ∧ q.opening sets = p.opening sets ∧ q.position ≤ k ∧
    n = (q.listed sets).length - q.position) ?_ hshort ⟨p, hc, rfl, hk.le, rfl⟩
  rintro _ c ⟨q, hc, hopening, hle, rfl⟩
  have hgoTo : p.goTo sets k = q.goTo sets k := (Place.goTo_congr (by omega) hopening).symm
  refine .frame_bind (.ite (fun hlt => ?_) fun hge => ?_)
  · rw [(h.faces hc).position_eq] at hlt
    refine (h.nextNode hc).bind fun found c' hc' => ?_
    obtain ⟨hc', rfl⟩ := hc'
    refine .ite (fun hnext => .pure ⟨fun _ he => (nomatch he), fun _ => ?_⟩) fun hend =>
      .pure ⟨fun a ha => ?_, fun he => (nomatch he)⟩
    · obtain ⟨hposition, hlen⟩ := Place.nextNode_of_hasNext hnext
      refine ⟨_, ?_, q.nextNode sets, hc', by rw [q.opening_nextNode, hopening], by omega, rfl⟩
      rw [Place.listed_congr q.opening_nextNode, hposition]
      omega
    · cases ha
      rw [hgoTo, Place.goTo_of_end (h.isIn hc) hlt hend]
      rw [Place.nextNode, if_neg hend] at hc'
      refine ⟨hc', ?_⟩
      rw [Place.position_entered, eq_comm, beq_eq_false_iff_ne]
      omega
  · rw [(h.faces hc).position_eq] at hge
    obtain rfl : q.position = k := by omega
    refine .pure ⟨fun a ha => ?_, fun he => by cases he⟩
    cases ha
    rw [hgoTo, Place.goTo_position (h.isIn hc) (by omega)]
    exact ⟨hc, (beq_self_eq_true _).symm⟩

/-- **Going to a position** ends there, or at the last node. -/
theorem moveTo (h : Surefooted base (up.next s) stands sets) (hc : stands c p) (k : Nat) :
    (up.moveTo s k).Yields base c fun found c' =>
      stands c' (p.goTo sets k) ∧ found = ((p.goTo sets k).position == k) := by
  have hposition := (h.faces hc).position_eq
  refine .frame_bind (.ite (fun hk => ?_) fun hk => ?_)
  · obtain rfl : k = 0 := eq_of_beq hk
    refine .move_bind (.pure ⟨h.rewound hc, ?_⟩)
    show true = (p.rewound.position == 0)
    rw [Place.position_rewound]
    rfl
  · have hk : k ≠ 0 := fun he => hk (by rw [he]; rfl)
    rw [h.searches hc]
    refine .ite (fun he => ?_) fun hne => .ite (fun hlt => ?_) fun hge => ?_
    · rw [hposition] at he
      obtain rfl : k = p.position := eq_of_beq he
      rw [Place.goTo_position (h.isIn hc) hk, beq_self_eq_true, (h.faces hc).current_eq]
      refine .pure ⟨hc, ?_⟩
      cases p with
      | before => exact absurd rfl hk
      | after => exact absurd rfl hk
      | within j i =>
        obtain ⟨i, rfl⟩ : ∃ i', i = i' + 1 := ⟨i - 1, by have : i ≠ 0 := hk; omega⟩
        have hlen : i < (nthSet sets j).length := h.isIn hc j (i + 1) rfl
        show (nthSet sets j)[i]?.isSome = true
        rw [List.getElem?_eq_getElem hlen]
        rfl
    · rw [Place.goTo_congr hk p.opening_rewound.symm]
      refine .move_bind (h.advanceTo (h.rewound hc) ?_)
      rw [Place.position_rewound]
      omega
    · refine h.advanceTo hc ?_
      rw [hposition] at hne hge
      have hne : k ≠ p.position := fun he => hne (by rw [he]; exact beq_self_eq_true _)
      omega

/-- **The node at the position** is that of the first position when the cursor is at none. -/
theorem nodeHere (h : Surefooted base (up.next s) stands sets) (hc : stands c p) :
    (up.nodeHere s).Yields base c fun p? c' =>
      stands c' (if p.position = 0 then p.goTo sets 1 else p) ∧
        p? = (if p.position = 0 then p.goTo sets 1 else p).node sets := by
  have hmoved : (do
      if c.frame.position == 0 then
        if !(← up.moveTo s 1) then return none
      Pure.pure (← Walk.frame).current : Walk (Option Pointer)).Yields base c fun p? c' =>
        stands c' (if p.position = 0 then p.goTo sets 1 else p) ∧
          p? = (if p.position = 0 then p.goTo sets 1 else p).node sets := by
    rw [(h.faces hc).position_eq]
    refine .ite (fun hz => ?_) fun hz => ?_
    · rw [if_pos (eq_of_beq hz)]
      refine (h.moveTo hc 1).bind fun found c' hc' => ?_
      obtain ⟨hc', rfl⟩ := hc'
      refine .ite (fun hnot => .pure ⟨hc', ?_⟩) fun _ => .frame_bind (.pure ⟨hc', (h.faces hc').current_eq⟩)
      -- No node was found, so the cursor is still before the first one.
      have hne : (p.goTo sets 1).position ≠ 1 := by simpa using hnot
      have hle : (p.goTo sets 1).position ≤ 1 := p.position_goTo_le 1
      have hzero : (p.goTo sets 1).position = 0 := by omega
      exact (Place.node_of_position hzero).symm
    · have hp : p.position ≠ 0 := fun he => hz (by rw [he]; rfl)
      rw [if_neg hp]
      exact .frame_bind (.pure ⟨hc, (h.faces hc).current_eq⟩)
  refine .frame_bind ?_
  have hsearches := h.searches hc 1
  cases hstage : c.frame.stage with
  | start origin members =>
    rw [hstage] at hsearches
    cases members <;> cases hsearches
  | known nodes order => exact hmoved
  | axis a t pending => exact hmoved
  | condition e positional done => exact hmoved

/-- **Listing the set** lists all of it, and leaves the cursor at its position. -/
theorem listSet (h : Surefooted base (up.next s) stands sets) (hc : stands c p) :
    (up.next s).listSet.Yields base c fun nodes c' => nodes = p.listed sets ∧ stands c' (p.entered sets) := by
  -- While the set is gone through, what is left of it is behind the position.
  have htake : ∀ l c', (∃ q, stands c' q ∧ q.opening sets = p.opening sets ∧ l = (q.listed sets).drop q.position) →
      (up.next s).take.Yields base c' fun p? c'' => p? = l.head? ∧
        if l = [] then ∃ q, stands c'' q ∧ q.opening sets = p.opening sets ∧ q.entered sets = q
        else ∃ q, stands c'' q ∧ q.opening sets = p.opening sets ∧ l.tail = (q.listed sets).drop q.position := by
    rintro l c' ⟨q, hc', hopening, rfl⟩
    refine (h.nextNode hc').bind fun found c'' hc'' => ?_
    obtain ⟨hc'', rfl⟩ := hc''
    refine .ite (fun hnext => .frame_bind (.pure ⟨?_, ?_⟩)) fun hend => .pure ⟨?_, ?_⟩
    · rw [(h.faces hc'').current_eq, Place.node_nextNode hnext, List.head?_drop]
    · obtain ⟨hposition, hlen⟩ := Place.nextNode_of_hasNext hnext
      rw [if_neg (by simpa using hlen)]
      refine ⟨_, hc'', by rw [q.opening_nextNode, hopening], ?_⟩
      rw [List.tail_drop, hposition, Place.listed_congr q.opening_nextNode]
    · rw [List.drop_eq_nil_of_le (Place.length_listed_le hend)]
      rfl
    · rw [if_pos (List.drop_eq_nil_of_le (Place.length_listed_le hend))]
      rw [Place.nextNode, if_neg hend] at hc''
      exact ⟨_, hc'', by rw [q.opening_entered, hopening], q.entered_entered⟩
  have hlist : ∀ {c' q}, stands c' q → q.opening sets = p.opening sets → q.position = 0 →
      (do
        let nodes ← Walk.collectAll (up.next s).take
        let _ ← (up.next s).setPosition c.frame.position
        Pure.pure nodes : Walk (List Pointer)).Yields base c' fun nodes c'' =>
          nodes = p.listed sets ∧ stands c'' (p.entered sets) := by
    intro c' q hc' hopening hzero
    refine (Walk.Yields.collectAll htake (h.short_listed p) ⟨q, hc', hopening, ?_⟩).bind fun nodes c'' hc'' => ?_
    · rw [hzero, List.drop_zero, Place.listed_congr hopening]
    · obtain ⟨rfl, q', hc'', hopening', hentered⟩ := hc''
      rw [(h.faces hc).position_eq]
      refine (h.moveTo hc'' p.position).bind fun _ c₁ hc₁ => .pure ⟨rfl, ?_⟩
      rw [← Place.goTo_back (h.isIn hc) hopening' hentered]
      exact hc₁.1
  refine .frame_bind (.ite (fun _ => .move_bind ?_) fun hz => ?_)
  · exact hlist (h.rewound hc) p.opening_rewound p.position_rewound
  · rw [(h.faces hc).position_eq] at hz
    exact hlist hc rfl (by simpa using hz)

/-! ## §F  Moves -/

/-- **One move** is made as by the plain cursor. -/
theorem make (h : Surefooted base (up.next s) stands sets) (hc : stands c p) (a : Move) :
    ((up.next s).make a).Yields base c fun answer c' =>
      answer = (a.plain sets p).1 ∧ stands c' (a.plain sets p).2 := by
  cases a with
  | nextSet => exact (h.nextSet hc).bind fun _ _ hc' => .pure ⟨congrArg Answer.found hc'.2, hc'.1⟩
  | nextNode => exact (h.nextNode hc).bind fun _ _ hc' => .pure ⟨congrArg Answer.found hc'.2, hc'.1⟩
  | setPosition k => exact (h.moveTo hc k).bind fun _ _ hc' => .pure ⟨congrArg Answer.found hc'.2, hc'.1⟩
  | rewind => exact .move_bind (.pure ⟨rfl, h.rewound hc⟩)
  | current => exact (h.nodeHere hc).bind fun _ _ hc' => .pure ⟨congrArg Answer.node hc'.2, hc'.1⟩
  | listSet => exact (h.listSet hc).bind fun _ _ hc' => .pure ⟨congrArg Answer.nodes hc'.1, hc'.2⟩
  | restart => exact .move_bind (.pure ⟨rfl, h.restarted hc⟩)

/-- **Every sequence of moves** is answered as by the plain cursor. -/
theorem answers (h : Surefooted base (up.next s) stands sets) (hc : stands c p) (moves : List Move) :
    ((up.next s).answers moves).Yields base c fun answers c' => answers = p.answers sets moves ∧ ∃ q, stands c' q := by
  induction moves generalizing c p with
  | nil => exact .pure ⟨rfl, p, hc⟩
  | cons a moves ih =>
    refine (h.make hc a).bind fun answer c' hc' => .frame_bind ?_
    obtain ⟨rfl, hc'⟩ := hc'
    refine (ih hc').bind fun answers c'' hc'' => .pure ⟨?_, hc''.2⟩
    rw [hc''.1, (h.faces hc').position_eq]
    rfl

end Surefooted

end NodePath
