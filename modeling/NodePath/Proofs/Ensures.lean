/-
# NodePath.Proofs.Ensures — what a walk has done when it answers

**Ensures** says what holds of the answer and of the cursor when a walk from a given cursor does not fail. The
store is kept track of only so far: the walk has added to it, and nothing it held before is gone.

* §A  `Walk.Ensures` and its rules, one for each way to put walks together.
* §B  Repetition.
* §C  Outcomes as answers.
-/
import NodePath.Proofs.Relate

namespace NodePath

/-! ## §A  Rules -/

/-- **Ensures** says that a walk that answers has come to what `Q` says, in a store that extends the one it
began in. -/
def Walk.Ensures {α : Type} (base : Store) (m : Walk α) (c : Cursor) (Q : α → Cursor → Prop) : Prop :=
  ∀ st, base.Extends st → ∀ a c' st', m.runOn c st = (.ok a, c', st') → st.Extends st' ∧ Q a c'

namespace Walk.Ensures

variable {α β : Type} {base : Store} {c : Cursor} {Q : α → Cursor → Prop} {Q' : β → Cursor → Prop}

theorem mono {m : Walk α} {weaker : α → Cursor → Prop} (h : Ensures base m c Q)
    (hw : ∀ a c', Q a c' → weaker a c') : Ensures base m c weaker := fun st hst a c' st' hrun =>
  ⟨(h st hst a c' st' hrun).1, hw a c' (h st hst a c' st' hrun).2⟩

/-- Two things that hold of every answer hold together. -/
theorem and {m : Walk α} {P : α → Cursor → Prop} (hQ : Ensures base m c Q) (hP : Ensures base m c P) :
    Ensures base m c fun a c' => Q a c' ∧ P a c' := by
  intro st hst a c' st' hrun
  obtain ⟨hext, hq⟩ := hQ st hst a c' st' hrun
  exact ⟨hext, hq, (hP st hst a c' st' hrun).2⟩

theorem pure {a : α} (h : Q a c) : Ensures base (Pure.pure a) c Q := by
  intro st hst b c' st' hrun
  rw [runOn_pure] at hrun
  cases hrun
  exact ⟨.refl hst.sound, h⟩

theorem throw (e : EvalError) : Ensures base (MonadExcept.throw e) c Q := by
  intro st hst b c' st' hrun
  rw [runOn_throw] at hrun
  cases hrun

/-- A walk that comes to something in the very store it leaves, and what follows in that store. -/
theorem bind_run {m : Walk α} {f : α → Walk β}
    (h : ∀ st, base.Extends st → ∀ a c₁ st₁, m.runOn c st = (.ok a, c₁, st₁) → st.Extends st₁ ∧
      ∀ b c' st', (f a).runOn c₁ st₁ = (.ok b, c', st') → st₁.Extends st' ∧ Q' b c') :
    Ensures base (m >>= f) c Q' := by
  intro st hst b c' st' hrun
  obtain ⟨a, c₁, st₁, hm, hf⟩ := of_runOn_bind hrun
  obtain ⟨hext, hafter⟩ := h st hst a c₁ st₁ hm
  obtain ⟨hext', hres⟩ := hafter b c' st' hf
  exact ⟨hext.trans hext', hres⟩

theorem bind {m : Walk α} {f : α → Walk β} (h : Ensures base m c Q)
    (hf : ∀ a c', Q a c' → Ensures base (f a) c' Q') : Ensures base (m >>= f) c Q' :=
  bind_run fun st hst a c₁ st₁ hm =>
    ⟨(h st hst a c₁ st₁ hm).1, hf a c₁ (h st hst a c₁ st₁ hm).2 st₁ (hst.trans (h st hst a c₁ st₁ hm).1)⟩

/-- Reading the store. -/
theorem store_bind {f : Store → Walk β} (h : ∀ st, base.Extends st → Ensures base (f st) c Q') :
    Ensures base (Walk.store >>= f) c Q' := by
  intro st hst b c' st' hrun
  rw [runOn_bind, runOn_store] at hrun
  exact h st hst st hst b c' st' hrun

/-- Reading the cursor. -/
theorem cursor_bind {f : Cursor → Walk β} (h : Ensures base (f c) c Q') :
    Ensures base (Walk.cursor >>= f) c Q' := by
  intro st hst b c' st' hrun
  rw [runOn_bind, runOn_cursor] at hrun
  exact h st hst b c' st' hrun

/-- Reading the last frame. -/
theorem frame_bind {f : Frame → Walk β} (h : Ensures base (f c.frame) c Q') :
    Ensures base (Walk.frame >>= f) c Q' := by
  intro st hst b c' st' hrun
  rw [runOn_bind, runOn_frame] at hrun
  exact h st hst b c' st' hrun

theorem move {f : Cursor → Cursor} {Q : Unit → Cursor → Prop} (h : Q () (f c)) :
    Ensures base (Walk.move f) c Q := by
  intro st hst b c' st' hrun
  rw [runOn_move] at hrun
  cases hrun
  exact ⟨.refl hst.sound, h⟩

theorem modifyFrame {f : Frame → Frame} {Q : Unit → Cursor → Prop} (h : Q () { c with frame := f c.frame }) :
    Ensures base (Walk.modifyFrame f) c Q := move h

/-- Working on the stages before the last one. -/
theorem inEarlier {f : Frame} {up : Cursor} {absent : α} {m : Walk α}
    (h : Ensures base m up fun a up' => Q a ⟨f, up'.frame :: up'.earlier⟩) :
    Ensures base (Walk.inEarlier absent m) ⟨f, up.frame :: up.earlier⟩ Q := by
  intro st hst b c' st' hrun
  rw [runOn_inEarlier] at hrun
  cases hm : m.runOn up st with
  | mk r rest =>
    obtain ⟨up', st₁⟩ := rest
    have hrun' : (r, (⟨f, up'.frame :: up'.earlier⟩ : Cursor), st₁) = (.ok b, c', st') := by
      simpa only [hm] using hrun
    cases hrun'
    exact h st hst b up' st' hm

theorem ite {p : Prop} [Decidable p] {m n : Walk α} (hm : p → Ensures base m c Q)
    (hn : ¬p → Ensures base n c Q) : Ensures base (if p then m else n) c Q := by
  split
  · exact hm ‹_›
  · exact hn ‹_›

/-! ## §B  Repetition -/

/-- What holds before every round holds before the last one. -/
theorem repeatUntil {m : Walk (Option α)} {I : Cursor → Prop}
    (hm : ∀ c, I c → Ensures base m c fun a? c' => match a? with
      | some a => Q a c'
      | none => I c') (hc : I c) : Ensures base (Walk.repeatUntil m) c Q := by
  have hround : ∀ times c, I c → Ensures base (Walk.untilSome m times) c Q := by
    intro times
    induction times with
    | zero => exact fun c _ => throw _
    | succ times ih =>
      refine fun c hc => (hm c hc).bind fun a? c' ha => ?_
      cases a? with
      | some a => exact pure ha
      | none => exact ih c' ha
  exact hround _ c hc

/-- A walk that answers the elements of a list one by one is collected to that list, which then is shorter than
the number of rounds. -/
theorem collect {m : Walk (Option α)} {I : List α → Cursor → Prop}
    (hm : ∀ l c, I l c → Ensures base m c fun a? c' => a? = l.head? ∧ I l.tail c') (times : Nat) {l taken : List α}
    (hc : I l c) :
    Ensures base (Walk.collect m times taken) c fun as c' =>
      as = taken.reverse ++ l ∧ I [] c' ∧ l.length < times := by
  induction times generalizing c l taken with
  | zero => exact throw _
  | succ times ih =>
    refine (hm l c hc).bind fun a? c' ha => ?_
    obtain ⟨rfl, hc'⟩ := ha
    cases l with
    | nil => exact pure ⟨by simp, hc', by simp⟩
    | cons a l =>
      refine (ih hc').mono fun as c'' h => ⟨?_, h.2.1, ?_⟩
      · simpa using h.1
      · simpa using h.2.2

theorem collectAll {m : Walk (Option α)} {I : List α → Cursor → Prop}
    (hm : ∀ l c, I l c → Ensures base m c fun a? c' => a? = l.head? ∧ I l.tail c') {l : List α}
    (hc : I l c) :
    Ensures base (Walk.collectAll m) c fun as c' => as = l ∧ I [] c' ∧ l.length < Walk.limit :=
  (collect hm Walk.limit hc).mono fun _ _ h => ⟨by simpa using h.1, h.2⟩

/-! ## §C  Outcomes -/

/-- Taking an outcome as an answer, when what follows fails for every error. -/
theorem attempt_bind {m : Walk α} {f : Except EvalError α → Walk β} (h : Ensures base m c Q)
    (hok : ∀ a c', Q a c' → Ensures base (f (.ok a)) c' Q')
    (herror : ∀ e c st, ∃ e', ((f (.error e)).runOn c st).1 = .error e') :
    Ensures base (Walk.attempt m >>= f) c Q' := by
  intro st hst b c' st' hrun
  rw [runOn_bind, runOn_attempt] at hrun
  cases hm : m.runOn c st with
  | mk r rest =>
    obtain ⟨c₁, st₁⟩ := rest
    rw [hm] at hrun
    cases r with
    | error e =>
      obtain ⟨e', he⟩ := herror e c₁ st₁
      have hrun' : (f (.error e)).runOn c₁ st₁ = (.ok b, c', st') := hrun
      rw [hrun'] at he
      cases he
    | ok a =>
      obtain ⟨hext, hpost⟩ := h st hst a c₁ st₁ hm
      obtain ⟨hext', hres⟩ := hok a c₁ hpost st₁ (hst.trans hext) b c' st' hrun
      exact ⟨hext.trans hext', hres⟩

theorem ofExcept {r : Except EvalError α} (h : ∀ a, r = .ok a → Q a c) :
    Ensures base (Walk.ofExcept r) c Q := by
  cases r with
  | ok a => exact pure (h a rfl)
  | error e => exact throw e

end Walk.Ensures

end NodePath
