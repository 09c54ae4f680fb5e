/-
# NodePath.Proofs.Undisturbed — an evaluation leaves no trace

An expression that is evaluated against a stage asks it for its node and for the size of its set, and the stage moves
to find the answers: `last()` goes through the whole set and comes back. What it comes back to need not be the same
cursor, but it is one at the same place, where every later move is answered as if nothing had been evaluated. A
node-set that the expression comes to has a cursor of its own, so pulling nodes from it is not noticed either.

* §A  What an evaluation keeps.
* §B  Cursors that are sure, and cursors that know their nodes.
* §C  Chains of stages.
-/
import NodePath.Proofs.FreshTraversal
import NodePath.Proofs.KnownCursor

namespace NodePath

/-! ## §A  What is kept -/

section

variable {base : Store} {w : World} {m : Motion} {I : Cursor → Prop} {c c' : Cursor} {st st' : Store}

/-- A walk that is sure to keep something of a cursor keeps it along with what alike cursors have in common. -/
theorem StepAlike.keeping {α : Type} {R : Relation α α} {n : Walk α} (h : StepAlike w R n n)
    (hI : ∀ c, I c → n.Yields w.base c fun _ c' => I c') : WalkAlike w (Link.alike.keeping I) False R n n := by
  rintro v hv c d st st' ⟨halike, hc⟩ hst
  obtain ⟨v', hv', halike', hst', hr⟩ := h.run hv halike hst
  have hbase : w.base.Extends st := hv.base ▸ hst.left
  obtain ⟨a, c', st₁, hrun⟩ := (hI c hc).works st hbase
  have hkept : I (n.runOn c st).2.1 := by
    rw [hrun]
    exact ((hI c hc).ensures st hbase a c' st₁ hrun).2
  exact .inr ⟨v', hv', ⟨halike', hkept⟩, hst', hr⟩

/-- **An evaluation keeps what the questions to the cursor keep**, whether it succeeds or not. -/
theorem Evaluator.Natural.keeps {ev : Evaluator} (hev : ev.Natural w) (hm : MotionAlike w m m)
    (hcurrent : ∀ c, I c → m.current.Yields w.base c fun _ c' => I c')
    (hlist : ∀ c, I c → m.listSet.Yields w.base c fun _ c' => I c') {way : Evaluator → Motion → Expr → Walk Value}
    (hway : way = Evaluator.lazy ∨ way = Evaluator.value) (e : Expr) (hc : I c) (halike : c.Alike w c)
    (hst : w.Holds st st) {r : Except EvalError Value} (hrun : (way ev m e).runOn c st = (r, c', st')) :
    I c' ∧ ∃ v, w.Grows v ∧ v.Holds st' st' ∧ ExceptAlike (Value.Alike v) r r := by
  have hqueries : Queries w (Link.alike.keeping I) False m m := {
    current := StepAlike.keeping hm.queries.current hcurrent
    listSet := StepAlike.keeping hm.queries.listSet hlist
    position := fun v c d hv hL => hm.queries.position v c d hv hL.1 }
  -- Two runs of the same evaluation are alike, and nothing may be excused, so what is kept of one is kept of the run.
  have halike' : WalkAlike w (Link.alike.keeping I) False .value (way ev m e) (way ev m e) := by
    rcases hway with rfl | rfl
    · exact hev.lazy w _ False m m e (.refl w) fun _ => hqueries
    · exact hev.value w _ False m m e (.refl w) fun _ => hqueries
  obtain ⟨v, hv, hL, hst', hr⟩ := (halike' w (.refl w) c c st st ⟨halike, hc⟩ hst).resolve_left fun hl => hl.1
  rw [hrun] at hL hst' hr
  exact ⟨hL.2, v, hv, hst', hr⟩

end

/-! ## §B  Steady cursors -/

/-- **Steady** says that a cursor is one of those that an evaluation may leave: asking them for the node or the list of
their set leads from one to another, they are at the same position, and no sequence of moves tells them apart. -/
structure Steady (base : Store) (m : Motion) (c : Cursor) (I : Cursor → Prop) : Prop where
  here : I c
  alike : ∀ w, base.Extends w.base → c.Alike w c
  current : ∀ c', I c' → m.current.Yields base c' fun _ d => I d
  listSet : ∀ c', I c' → m.listSet.Yields base c' fun _ d => I d
  place : ∀ c', I c' → c'.frame.position = c.frame.position ∧ c'.frame.current = c.frame.current
  answers : ∀ moves, ∃ answers, ∀ c', I c' → ∀ st, base.Extends st → ((m.answers moves).runOn c' st).1 = .ok answers

section

variable {base : Store} {s : Surroundings} {up : Motion} {stands : Cursor → Place → Prop}
  {sets : List (List Pointer)} {c : Cursor} {p : Place} {first : Stage} {nodes : List Pointer}
  {progress : Progress} {k : Nat}

/-- **A sure cursor at a node** is steady: it comes back to its place. -/
theorem Surefooted.steady (h : Surefooted base (up.next s) stands sets) (hc : stands c p) (hp : p.position ≠ 0)
    (halike : ∀ w, base.Extends w.base → c.Alike w c) : Steady base (up.next s) c (stands · p) where
  here := hc
  alike := halike
  current c' hc' := (h.nodeHere hc').mono fun _ d hd => by
    rw [if_neg hp] at hd
    exact hd.1
  listSet c' hc' := (h.listSet hc').mono fun _ d hd => by
    cases p with
    | within j i => exact hd.2
    | before => exact absurd rfl hp
    | after => exact absurd rfl hp
  place c' hc' :=
    ⟨(h.faces hc').position_eq.trans (h.faces hc).position_eq.symm,
      (h.faces hc').current_eq.trans (h.faces hc).current_eq.symm⟩
  answers moves := by
    refine ⟨p.answers sets moves, fun c' hc' st hst => ?_⟩
    obtain ⟨answers, d, st', hrun⟩ := (h.answers hc' moves).works st hst
    obtain ⟨-, rfl, -⟩ := (h.answers hc' moves).ensures st hst _ _ _ hrun
    rw [hrun]

/-- **A cursor over known nodes** that is at a position is steady: it stays as it is. -/
theorem steady_knowing (s : Surroundings) (h : first.knows = some nodes) (hlimit : nodes.length < Walk.limit)
    (hk : k ≠ 0) (hprogress : progress ≠ .notStarted)
    (halike : ∀ w, base.Extends w.base → (Cursor.knowing first nodes progress k).Alike w (.knowing first nodes progress k)) :
    Steady base (listMotion s) (.knowing first nodes progress k) (· = .knowing first nodes progress k) where
  here := rfl
  alike := halike
  current := by
    rintro _ rfl
    obtain ⟨p?, progress', k', hmoved, hrun⟩ := exists_current_knowing s h progress k
    refine .of_runOn hrun ?_
    rcases hmoved with ⟨rfl, rfl⟩ | ⟨-, hzero, -⟩
    · rfl
    · exact absurd hzero hk
  listSet := by
    rintro _ rfl
    have hstarted : progress = .notStarted → k = 0 := fun he => absurd he hprogress
    refine .of_runOn (fun st => runOn_listSet_knowing s h hlimit hstarted) ?_
    cases progress with
    | notStarted => exact absurd rfl hprogress
    | _ => rfl
  place := by
    rintro _ rfl
    exact ⟨rfl, rfl⟩
  answers moves := by
    have hc : IsKnowing first nodes (.knowing first nodes progress k) := ⟨_, _, rfl, fun he => absurd he hprogress⟩
    obtain ⟨answers, c', -, hrun⟩ := hc.answers s h hlimit moves
    refine ⟨answers, ?_⟩
    rintro _ rfl st -
    rw [hrun]

end

/-! ## §C  Chains of stages -/

section

variable {st st₀ st₁ st₂ : Store} {root : Pointer} {c : Context} {host : Host} {first : Stage} {nodes : List Pointer}
  {later : List LaterStage} {sets : List (List Pointer)} {cur cur' : Cursor}

/-- A cursor over known nodes of a document is alike to itself. -/
theorem Stage.StartsIn.alike_knowing (hfirst : first.StartsIn st root nodes) (hrealm : Realm st (· ∈ root.listing st))
    (progress : Progress) (k : Nat) (w : World) (hw : st.Extends w.base) :
    (Cursor.knowing first nodes progress k).Alike w (.knowing first nodes progress k) := by
  refine ⟨⟨hfirst.alike hrealm w hw, rfl, ?_, rfl, .none⟩, .nil⟩
  show Option.Rel _ (if k = 0 then none else nodes[k - 1]?) (if k = 0 then none else nodes[k - 1]?)
  split
  · exact .none
  · cases hp : nodes[k - 1]? with
    | none => exact .none
    | some p => exact .some (hrealm.alike (hfirst.among p (List.mem_of_getElem? hp)) hw)

/-- **The cursors that moves lead to** from the start of a chain are steady at every position. -/
theorem chain_steady (hroot : IsDocument st root) (hc : c.Settled host st) (hfirst : first.StartsIn st root nodes)
    (hfresh : (((Cursor.chain first later).motion (c.surroundings host)).traversal.runOn (.chain first later) st).1 =
      .ok sets)
    (hst : st.Extends st₀) {moves : List Move} {r : Except EvalError (List (Answer × Nat))}
    (hreached : (((Cursor.chain first later).motion (c.surroundings host)).answers moves).runOn (.chain first later) st₀ =
      (r, cur, st₁))
    (hposition : cur.frame.position ≠ 0) :
    st.Extends st₁ ∧ ∃ I, Steady st ((Cursor.chain first later).motion (c.surroundings host)) cur I := by
  have hs := hc.grounded
  have hrealm := (hroot.charted hs).realm
  rcases List.eq_nil_or_concat later with rfl | ⟨earlier, l, rfl⟩
  · have hlimit : nodes.length < Walk.limit :=
      Nat.lt_of_le_of_lt hfirst.narrow Number.exactBound_lt_limit
    have hstart : IsKnowing first nodes (.chain first []) := ⟨.notStarted, 0, rfl, fun _ => rfl⟩
    obtain ⟨answers, _, ⟨progress, k, rfl, hk⟩, hrun⟩ := hstart.answers (c.surroundings host) hfirst.knows hlimit moves
    have hreached' := (hrun st₀).symm.trans hreached
    cases hreached'
    have hprogress : progress ≠ .notStarted := fun he => hposition (hk he)
    exact ⟨hst, _, steady_knowing _ hfirst.knows hlimit hposition hprogress (hfirst.alike_knowing hrealm progress k)⟩
  · obtain ⟨sets', hchain⟩ := hfirst.goesBack hroot hc (earlier.concat l)
    rw [Cursor.chain_concat] at hfresh hreached hchain ⊢
    obtain ⟨-, -, stands, htraverses, -, hsure, hassured⟩ := hchain.surefooted_of_traversal hs (.refl hs.sound) hfresh
    obtain ⟨answers, c₁, st', hrun⟩ := (hsure.answers hassured moves).works st₀ hst
    obtain ⟨hext, -, p, hp⟩ := (hsure.answers hassured moves).ensures st₀ hst _ _ _ hrun
    have hreached' := hrun.symm.trans hreached
    cases hreached'
    exact ⟨hst.trans hext, _, hsure.steady hp ((hsure.faces hp).position_eq ▸ hposition) (htraverses.settled hp.stands)⟩

/-- **An evaluation leaves no trace.** Whatever moves have led to a position of a chain of stages, after an expression
was evaluated there, lazily or not, the chain is at the same position and node, and every sequence of moves is answered
as before. Pulling any number of nodes from a node-set that the expression came to changes nothing of that. -/
theorem evaluation_undisturbing (hroot : IsDocument st root) (hc : c.Settled host st)
    (hfirst : first.StartsIn st root nodes)
    (hfresh : (((Cursor.chain first later).motion (c.surroundings host)).traversal.runOn (.chain first later) st).1 =
      .ok sets)
    (hst : st.Extends st₀) {moves : List Move} {r : Except EvalError (List (Answer × Nat))}
    (hreached : (((Cursor.chain first later).motion (c.surroundings host)).answers moves).runOn (.chain first later) st₀ =
      (r, cur, st₁))
    (hposition : cur.frame.position ≠ 0) {e : Expr} {way : Evaluator → Motion → Expr → Walk Value}
    (hway : way = Evaluator.lazy ∨ way = Evaluator.value) {value : Except EvalError Value}
    (hrun : (way ((c.setting host).evaluator e) ((Cursor.chain first later).motion (c.surroundings host)) e).runOn cur st₁ =
      (value, cur', st₂)) :
    cur'.frame.position = cur.frame.position ∧ cur'.frame.current = cur.frame.current ∧
      ∀ moves', ∃ answers,
        ((((Cursor.chain first later).motion (c.surroundings host)).answers moves').runOn cur st₁).1 = .ok answers ∧
        ((((Cursor.chain first later).motion (c.surroundings host)).answers moves').runOn cur' st₂).1 = .ok answers ∧
        ∀ d, value = .ok (.nodes d) → ∀ times pulled d' st₃,
          ((d.motion (c.surroundings host)).deliverUpTo times []).runOn d st₂ = (pulled, d', st₃) →
          ((((Cursor.chain first later).motion (c.surroundings host)).answers moves').runOn cur' st₃).1 = .ok answers := by
  obtain ⟨hext, I, hsteady⟩ := chain_steady hroot hc hfirst hfresh hst hreached hposition
  have hbase : st.Extends (World.only st hc.closed).base := .refl hc.sound
  have hnatural : (c.setting host).Natural (World.only st hc.closed) := hc.within.setting hc.host
  have hmotion := MotionAlike.ofLength (hc.grounded.natural _ hbase).alike ((Cursor.chain first later).earlier.length + 1)
  obtain ⟨hkept, v, hv, hst₂, hvalue⟩ := (hnatural.evaluator e).keeps hmotion hsteady.current hsteady.listSet hway e
    hsteady.here (hsteady.alike _ hbase) (World.holds_only hext hext) hrun
  refine ⟨(hsteady.place cur' hkept).1, (hsteady.place cur' hkept).2, fun moves' => ?_⟩
  obtain ⟨answers, hanswers⟩ := hsteady.answers moves'
  have hb : v.base = st := hv.base
  have hext₂ : st.Extends st₂ := hb ▸ hst₂.left
  refine ⟨answers, hanswers cur hsteady.here st₁ hext, hanswers cur' hkept st₂ hext₂, ?_⟩
  rintro d rfl times pulled d' st₃ hpulled
  -- The node-set has its own cursor, which is alike to itself; what is pulled from it only adds to the store.
  cases hvalue with
  | ok hvalue =>
    cases hvalue with
    | nodes hd =>
      have hpull := (MotionAlike.ofLength ((hc.grounded.natural _ hbase).alike.grow hv) (d.earlier.length + 1)).deliverUpTo
        times (.nil : PointersAlike v [] [])
      obtain ⟨v', hv', -, hst₃, -⟩ := hpull.run (.refl v) hd hst₂
      have hrun₃ : ((Motion.ofLength (c.surroundings host) (d.earlier.length + 1)).deliverUpTo times []).runOn d st₂ =
        (pulled, d', st₃) := hpulled
      rw [hrun₃] at hst₃
      have hb' : v'.base = st := hv'.base.trans hb
      have hext₃ : st.Extends st₃ := hb' ▸ hst₃.left
      exact hanswers cur' hkept st₃ hext₃

/-- The cursor over the numbers of the rows, at the first one. -/
def firstNumber : Except EvalError (List (Answer × Nat)) × Cursor × Store :=
  (rowsMotion.answers [.nextNode]).runOn (.chain (.start .firstTop none) allButLast) (.holding rowsDocument)

/-- What an expression comes to at the first number. -/
def atFirstNumber (e : Expr) : Except EvalError Value × Cursor × Store :=
  (((Context.atTop.setting stockHost).evaluator e).lazy rowsMotion e).runOn firstNumber.2.1 firstNumber.2.2

/-- The numbers of the row that a number is in. -/
def numbersBeside : Expr := .path false [⟨.parent, .type .node, []⟩, ⟨.child, .name (.plain "b"), []⟩]

/-- On to the second number of the row, to its end, and to the second row. -/
def onward : List Move := [.nextNode, .current, .nextNode, .nextSet]

/-- The node-set that an evaluation comes to. -/
def nodeSet? : Except EvalError Value → Option Cursor
  | .ok (.nodes d) => some d
  | _ => none

theorem exists_of_nodeSet? {r : Except EvalError Value} (h : (nodeSet? r).isSome = true) : ∃ d, r = .ok (.nodes d) := by
  cases r with
  | error e => cases h
  | ok v =>
    cases v with
    | datum d => cases h
    | nodes d => exact ⟨d, rfl⟩

/-- At the first number of the first row, `last()` goes through the row and comes back; `../b` comes to a node-set, from
which two nodes are pulled. -/
theorem evaluation_undisturbing_rows :
    ∃ answers d, firstNumber.2.1.frame.position ≠ 0 ∧
      ((rowsMotion.answers onward).runOn firstNumber.2.1 firstNumber.2.2).1 = .ok answers ∧
      (atFirstNumber (.core .last [])).1.isOk = true ∧
      ((rowsMotion.answers onward).runOn (atFirstNumber (.core .last [])).2.1 (atFirstNumber (.core .last [])).2.2).1 =
        .ok answers ∧
      (atFirstNumber numbersBeside).1 = .ok (.nodes d) ∧
      ((rowsMotion.answers onward).runOn (atFirstNumber numbersBeside).2.1
        (((d.motion (Context.atTop.surroundings stockHost)).deliverUpTo 2 []).runOn d
          (atFirstNumber numbersBeside).2.2).2.2).1 = .ok answers := by
  have hroot : IsDocument (.holding rowsDocument) .firstTop := isDocument_firstTop (by decide +kernel) (by decide +kernel)
  have hc := Context.settled_atTop rowsDocument
  have hfirst := startsIn_firstTop rowsDocument
  have hposition : firstNumber.2.1.frame.position ≠ 0 := by decide +kernel
  have hlast : (atFirstNumber (.core .last [])).1.isOk = true := by decide +kernel
  have hnodes : (nodeSet? (atFirstNumber numbersBeside).1).isSome = true := by decide +kernel
  obtain ⟨d, hd⟩ := exists_of_nodeSet? hnodes
  have htraversed : (rowsMotion.traversal.runOn (.chain (.start .firstTop none) allButLast)
      (.holding rowsDocument)).1.isOk = true := by decide +kernel
  rcases hfresh : (rowsMotion.traversal.runOn (.chain (.start .firstTop none) allButLast)
      (.holding rowsDocument)).1 with e | sets
  · rw [hfresh] at htraversed
    cases htraversed
  have hreached : (rowsMotion.answers [.nextNode]).runOn (.chain (.start .firstTop none) allButLast)
      (.holding rowsDocument) = (firstNumber.1, firstNumber.2.1, firstNumber.2.2) := rfl
  have hrun : ∀ e, (Evaluator.lazy ((Context.atTop.setting stockHost).evaluator e) rowsMotion e).runOn firstNumber.2.1
      firstNumber.2.2 = ((atFirstNumber e).1, (atFirstNumber e).2.1, (atFirstNumber e).2.2) := fun _ => rfl
  obtain ⟨-, -, hafter⟩ := evaluation_undisturbing hroot hc hfirst hfresh (.refl hc.sound) hreached hposition (.inl rfl)
    (hrun (.core .last []))
  obtain ⟨-, -, hafter'⟩ := evaluation_undisturbing hroot hc hfirst hfresh (.refl hc.sound) hreached hposition (.inl rfl)
    (hrun numbersBeside)
  obtain ⟨answers, hbefore, hlast', -⟩ := hafter onward
  obtain ⟨answers', hbefore', -, hpulled⟩ := hafter' onward
  cases hbefore.symm.trans hbefore'
  exact ⟨answers, d, hposition, hbefore, hlast, hlast', hd, hpulled d hd 2 _ _ _ rfl⟩

end

end NodePath
