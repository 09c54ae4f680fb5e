/-
# NodePath.Proofs.Agreement — operations that agree

Two operations agree when, begun in the same good store, they do the same: they answer alike or fail with the same
error, and leave the same store. That an operation agrees with itself says what it does to stores, and how it fails.
Which stores are good, which changes are allowed and which errors may come up is up to a **Regime**. Where two contexts
that look different agree in what they know, everything that is evaluated in them agrees.

* §A  `Context.Agree`.
* §B  `Regime`.
* §C  `EvalAgree`.
* §D  `WalkAgree`.
* §E  Repetition.
-/
import NodePath.Proofs.AlikeReading

namespace NodePath

/-! ## §A  Contexts -/

/-- **Agree** says that two contexts know the same, as far as an evaluation in a good store asks them. Whether they are
lenient is not asked until an evaluation has come to its end. -/
structure Context.Agree (good : Store → Prop) (c d : Context) : Prop where
  contextPointer : d.contextPointer = c.contextPointer
  rootPointer : d.rootPointer = c.rootPointer
  locale : d.locale = c.locale
  decimalFormat? : ∀ name, d.decimalFormat? name = c.decimalFormat? name
  function? : ∀ name arity, d.function? name arity = c.function? name arity
  keyManager? : d.keyManager? = c.keyManager?
  identityManager? : d.identityManager? = c.identityManager?
  variableRef : ∀ st, good st → ∀ name, d.variableRef st name = c.variableRef st name
  variableValue? : ∀ st, good st → ∀ name, d.variableValue? st name = c.variableValue? st name
  addressOf : ∀ st, good st → ∀ label, d.addressOf st label = c.addressOf st label

theorem Context.Agree.usualFormat {good : Store → Prop} {c d : Context} (h : c.Agree good d) :
    d.usualFormat = c.usualFormat := by
  rw [Context.usualFormat, Context.usualFormat, h.decimalFormat?, h.locale]

/-! ## §B  Regimes -/

/-- Whether an error says that a text has no value. -/
def EvalError.isAbsence : EvalError → Bool
  | .notFound _ => true
  | _ => false

/-- **Regime** is which stores are good, how operations may change them, and how they may fail. What every evaluation
does to a store, which is to put documents in and to compile texts, is allowed; and no way to fail is ruled out but
that a text has no value. -/
structure Regime where
  good : Store → Prop
  allows : Store → Store → Prop
  admits : EvalError → Prop
  refl : ∀ st, allows st st
  trans : ∀ {st st' st''}, allows st st' → allows st' st'' → allows st st''
  stays : ∀ {st st'}, good st → allows st st' → good st'
  addDocument : ∀ st (j : Json), allows st (st.addDocument j).1
  compile : ∀ st (text : String), allows st { st with engine := (st.engine.compile text).2 }
  usual : ∀ {e : EvalError}, e.isAbsence = false → admits e

variable {r : Regime}

/-- An answer is no failure. -/
theorem Regime.answered (r : Regime) {α : Type} (a : α) (e : EvalError) (h : Except.ok a = .error e) : r.admits e := by
  cases h

/-- A text that is attached to an error does not make it say that something is absent. -/
theorem Regime.atPath {e : EvalError} (h : r.admits e) (text : String) : r.admits (e.atPath text) := by
  cases e with
  | notFound path => exact h
  | _ => exact r.usual rfl

/-- Nodes cannot be sorted where two of them are unrelated, and for no other reason. -/
theorem Regime.sortDistinct (r : Regime) {st : Store} {ps : List Pointer} {order : Order} {e : EvalError}
    (h : sortDistinct st ps order = .error e) : r.admits e := by
  have hinsert : ∀ (p : Pointer) (qs : List Pointer) {e}, (insertBackwards st p qs).2 = some e →
      e.isAbsence = false := by
    intro p qs
    induction qs with
    | nil =>
      intro e h
      cases h
    | cons q qs ih =>
      intro e h
      rw [insertBackwards] at h
      split at h
      · exact ih h
      · cases h
      · cases h
        rfl
  have hfrom : ∀ (ps sorted : List Pointer) (failure : Option EvalError),
      (∀ e, failure = some e → e.isAbsence = false) →
        ∀ e, (sortFrom st sorted failure ps).2 = some e → e.isAbsence = false := by
    intro ps
    induction ps with
    | nil => exact fun _ _ hfailure => hfailure
    | cons p ps ih =>
      intro sorted failure hfailure
      rw [sortFrom]
      refine ih _ _ fun e he => ?_
      -- the first failure is kept
      cases failure with
      | none => exact hinsert p sorted he
      | some e' => exact hfailure e he
  rw [NodePath.sortDistinct] at h
  split at h
  · rename_i heq
    cases h
    have hnone : ∀ e : EvalError, none = some e → e.isAbsence = false := by
      intro e he
      cases he
    exact r.usual (hfrom _ [] none hnone e (congrArg Prod.snd heq))
  · cases h

/-! ## §C  Operations on stores -/

/-- **EvalAgree** says that two operations do the same in good stores, and neither change them nor fail in a way that is
ruled out. -/
def EvalAgree {α : Type} (r : Regime) (m n : Eval α) : Prop :=
  ∀ st, r.good st → n.runOn st = m.runOn st ∧ r.allows st (m.runOn st).2 ∧
    ∀ e, (m.runOn st).1 = .error e → r.admits e

namespace EvalAgree

variable {α β : Type}

theorem pure (a : α) : EvalAgree r (Pure.pure a) (Pure.pure a) := fun st _ => ⟨rfl, r.refl st, r.answered _⟩

theorem throw {e : EvalError} (h : r.admits e) :
    EvalAgree r (MonadExcept.throw e : Eval α) (MonadExcept.throw e) := by
  intro st _
  refine ⟨rfl, r.refl st, fun e' he => ?_⟩
  cases he
  exact h

theorem bind {m n : Eval α} {f g : α → Eval β} (h : EvalAgree r m n) (hfg : ∀ a, EvalAgree r (f a) (g a)) :
    EvalAgree r (m >>= f) (n >>= g) := by
  intro st hst
  obtain ⟨hrun, hallowed, hadmitted⟩ := h st hst
  rw [Eval.runOn_bind, Eval.runOn_bind, hrun]
  generalize m.runOn st = x at hallowed hadmitted ⊢
  obtain ⟨answer, st'⟩ := x
  -- Where the first operation fails, both stop in the store that it leaves.
  cases answer with
  | ok a => exact (hfg a st' (r.stays hst hallowed)).imp_right (And.imp_left (r.trans hallowed))
  | error e =>
    refine ⟨rfl, hallowed, fun e' he => ?_⟩
    cases he
    exact hadmitted e rfl

theorem tryCatch {m n : Eval α} {f g : EvalError → Eval α} (h : EvalAgree r m n)
    (hfg : ∀ e, r.admits e → EvalAgree r (f e) (g e)) :
    EvalAgree r (MonadExcept.tryCatch m f) (MonadExcept.tryCatch n g) := by
  intro st hst
  obtain ⟨hrun, hallowed, hadmitted⟩ := h st hst
  rw [Eval.runOn_tryCatch, Eval.runOn_tryCatch, hrun]
  generalize m.runOn st = x at hallowed hadmitted ⊢
  obtain ⟨answer, st'⟩ := x
  cases answer with
  | ok a => exact ⟨rfl, hallowed, r.answered _⟩
  | error e =>
    exact (hfg e (hadmitted e rfl) st' (r.stays hst hallowed)).imp_right (And.imp_left (r.trans hallowed))

/-- Reading the store, which is good. -/
theorem get_bind {f g : Store → Eval β} (h : ∀ st, r.good st → EvalAgree r (f st) (g st)) :
    EvalAgree r (get >>= f) (get >>= g) := by
  intro st hst
  rw [Eval.runOn_bind, Eval.runOn_bind, Eval.runOn_get]
  exact h st hst st hst

/-- Branches of one condition. -/
theorem ite {c : Prop} [Decidable c] {m n m' n' : Eval α} (h : EvalAgree r m n) (h' : EvalAgree r m' n') :
    EvalAgree r (if c then m else m') (if c then n else n') := by
  by_cases hc : c
  · rwa [if_pos hc, if_pos hc]
  · rwa [if_neg hc, if_neg hc]

theorem addDocument (j : Json) : EvalAgree r (Eval.change (·.addDocument j)) (Eval.change (·.addDocument j)) :=
  fun st _ => ⟨rfl, r.addDocument st j, r.answered _⟩

theorem compileText (text : String) : EvalAgree r (NodePath.compileText text) (NodePath.compileText text) := by
  intro st _
  rw [runOn_compileText]
  refine ⟨rfl, r.compile st text, fun e he => ?_⟩
  cases hcompiled : (st.engine.compile text).1 with
  | ok compiled =>
    rw [hcompiled] at he
    cases he
  | error parse =>
    rw [hcompiled] at he
    cases he
    exact r.usual rfl

/-! ### Values that become nodes -/

theorem wrap (d : Datum) : EvalAgree r (Pointer.wrap d) (Pointer.wrap d) := by
  have hmake : EvalAgree r (do Pointer.make (.plain "") (.json (d.toJson (← get))))
      (do Pointer.make (.plain "") (.json (d.toJson (← get)))) := by
    refine .get_bind fun _ _ => .get_bind fun _ _ => ?_
    split
    · exact (EvalAgree.addDocument _).bind fun _ => .pure _
    · exact .throw (r.usual rfl)
  cases d with
  | null => exact .pure _
  | pointer p => exact .pure p
  | _ => exact hmake

theorem opened (p : Pointer) : EvalAgree r p.opened p.opened := by
  refine .get_bind fun _ _ => .get_bind fun _ _ => ?_
  split
  · exact .pure _
  · exact (EvalAgree.addDocument _).bind fun _ => .pure _
  · exact .pure _

end EvalAgree

/-! ## §D  Walks -/

/-- **WalkAgree** says that two walks do the same with every cursor in good stores, and neither change these nor fail in
a way that is ruled out. -/
def WalkAgree {α : Type} (r : Regime) (m n : Walk α) : Prop :=
  ∀ c st, r.good st → n.runOn c st = m.runOn c st ∧ r.allows st (m.runOn c st).2.2 ∧
    ∀ e, (m.runOn c st).1 = .error e → r.admits e

namespace WalkAgree

variable {α β : Type}

theorem pure (a : α) : WalkAgree r (Pure.pure a) (Pure.pure a) :=
  fun _ st _ => ⟨rfl, r.refl st, r.answered _⟩

theorem throw {e : EvalError} (h : r.admits e) :
    WalkAgree r (MonadExcept.throw e : Walk α) (MonadExcept.throw e) := by
  intro _ st _
  refine ⟨rfl, r.refl st, fun e' he => ?_⟩
  cases he
  exact h

theorem bind {m n : Walk α} {f g : α → Walk β} (h : WalkAgree r m n) (hfg : ∀ a, WalkAgree r (f a) (g a)) :
    WalkAgree r (m >>= f) (n >>= g) := by
  intro c st hst
  obtain ⟨hrun, hallowed, hadmitted⟩ := h c st hst
  rw [Walk.runOn_bind, Walk.runOn_bind, hrun]
  generalize m.runOn c st = x at hallowed hadmitted ⊢
  obtain ⟨answer, c', st'⟩ := x
  cases answer with
  | ok a => exact (hfg a c' st' (r.stays hst hallowed)).imp_right (And.imp_left (r.trans hallowed))
  | error e =>
    refine ⟨rfl, hallowed, fun e' he => ?_⟩
    cases he
    exact hadmitted e rfl

/-- An operation that does not look at the cursor. -/
theorem lift {m n : Eval α} (h : EvalAgree r m n) : WalkAgree r (Walk.lift m) (Walk.lift n) := by
  intro c st hst
  obtain ⟨hrun, hends⟩ := h st hst
  rw [Walk.runOn_lift, Walk.runOn_lift, hrun]
  exact ⟨rfl, hends⟩

theorem monadLift {m n : Eval α} (h : EvalAgree r m n) : WalkAgree r (liftM m : Walk α) (liftM n) := lift h

/-- Reading the store, which is good. -/
theorem store_bind {f g : Store → Walk β} (h : ∀ st, r.good st → WalkAgree r (f st) (g st)) :
    WalkAgree r (Walk.store >>= f) (Walk.store >>= g) := by
  intro c st hst
  rw [Walk.runOn_bind, Walk.runOn_bind, Walk.runOn_store]
  exact h st hst c st hst

theorem cursor_bind {f g : Cursor → Walk β} (h : ∀ c, WalkAgree r (f c) (g c)) :
    WalkAgree r (Walk.cursor >>= f) (Walk.cursor >>= g) :=
  bind (fun _ st _ => ⟨rfl, r.refl st, r.answered _⟩) h

theorem frame_bind {f g : Frame → Walk β} (h : ∀ a, WalkAgree r (f a) (g a)) :
    WalkAgree r (Walk.frame >>= f) (Walk.frame >>= g) :=
  bind (fun _ st _ => ⟨rfl, r.refl st, r.answered _⟩) h

theorem move (f : Cursor → Cursor) : WalkAgree r (Walk.move f) (Walk.move f) :=
  fun _ st _ => ⟨rfl, r.refl st, r.answered _⟩

theorem modifyFrame (f : Frame → Frame) : WalkAgree r (Walk.modifyFrame f) (Walk.modifyFrame f) := move _

/-- The node at the position of the frame. -/
theorem frameCurrent :
    WalkAgree r (do Pure.pure (← Walk.frame).current) (do Pure.pure (← Walk.frame).current) :=
  frame_bind fun _ => pure _

/-- An outcome as an answer, and what follows for the outcomes that may come up. -/
theorem attempt_bind {m n : Walk α} {f g : Except EvalError α → Walk β} (h : WalkAgree r m n)
    (hok : ∀ a, WalkAgree r (f (.ok a)) (g (.ok a)))
    (herror : ∀ e, r.admits e → WalkAgree r (f (.error e)) (g (.error e))) :
    WalkAgree r (Walk.attempt m >>= f) (Walk.attempt n >>= g) := by
  intro c st hst
  obtain ⟨hrun, hallowed, hadmitted⟩ := h c st hst
  rw [Walk.runOn_bind, Walk.runOn_bind, Walk.runOn_attempt, Walk.runOn_attempt, hrun]
  generalize m.runOn c st = x at hallowed hadmitted ⊢
  obtain ⟨answer, c', st'⟩ := x
  have hst' := r.stays hst hallowed
  cases answer with
  | ok a => exact (hok a c' st' hst').imp_right (And.imp_left (r.trans hallowed))
  | error e => exact (herror e (hadmitted e rfl) c' st' hst').imp_right (And.imp_left (r.trans hallowed))

theorem ofExcept {answer : Except EvalError α} (h : ∀ e, answer = .error e → r.admits e) :
    WalkAgree r (Walk.ofExcept answer) (Walk.ofExcept answer) := by
  cases answer with
  | ok a => exact pure a
  | error e => exact throw (h e rfl)

/-- Branches of one condition. -/
theorem ite {c : Prop} [Decidable c] {m n m' n' : Walk α} (h : WalkAgree r m n) (h' : WalkAgree r m' n') :
    WalkAgree r (if c then m else m') (if c then n else n') := by
  by_cases hc : c
  · rwa [if_pos hc, if_pos hc]
  · rwa [if_neg hc, if_neg hc]

/-- Working on the stages before the last one. -/
theorem inEarlier (absent : α) {m n : Walk α} (h : WalkAgree r m n) :
    WalkAgree r (Walk.inEarlier absent m) (Walk.inEarlier absent n) := by
  intro c st hst
  obtain ⟨f, fs⟩ := c
  rw [Walk.runOn_inEarlier, Walk.runOn_inEarlier]
  cases fs with
  | nil => exact ⟨rfl, r.refl st, r.answered _⟩
  | cons g gs =>
    obtain ⟨hrun, hends⟩ := h ⟨g, gs⟩ st hst
    dsimp only
    rw [hrun]
    exact ⟨rfl, hends⟩

/-- Running a walk on a cursor of its own. -/
theorem within {m n : Walk α} (h : WalkAgree r m n) (c : Cursor) :
    EvalAgree r (Walk.within c m) (Walk.within c n) := by
  intro st hst
  obtain ⟨hrun, hends⟩ := h c st hst
  rw [Walk.runOn_within, Walk.runOn_within, hrun]
  exact ⟨rfl, hends⟩

/-! ## §E  Repetition -/

/-- A list of operations, one after the other. -/
theorem mapM {ι : Type} {f g : ι → Walk α} (h : ∀ i, WalkAgree r (f i) (g i)) (is : List ι) :
    WalkAgree r (is.mapM f) (is.mapM g) := by
  induction is with
  | nil => exact pure []
  | cons i is ih =>
    rw [List.mapM_cons, List.mapM_cons]
    exact (h i).bind fun _ => ih.bind fun _ => pure _

theorem untilSome {m n : Walk (Option α)} (h : WalkAgree r m n) (times : Nat) :
    WalkAgree r (Walk.untilSome m times) (Walk.untilSome n times) := by
  -- A repetition that runs out of rounds fails in both.
  induction times with
  | zero => exact throw (r.usual rfl)
  | succ times ih =>
    refine h.bind fun a? => ?_
    cases a? with
    | some a => exact pure a
    | none => exact ih

theorem collect {m n : Walk (Option α)} (h : WalkAgree r m n) (times : Nat) (taken : List α) :
    WalkAgree r (Walk.collect m times taken) (Walk.collect n times taken) := by
  induction times generalizing taken with
  | zero => exact throw (r.usual rfl)
  | succ times ih =>
    refine h.bind fun a? => ?_
    cases a? with
    | some a => exact ih (a :: taken)
    | none => exact pure _

theorem repeatUntil {m n : Walk (Option α)} (h : WalkAgree r m n) :
    WalkAgree r (Walk.repeatUntil m) (Walk.repeatUntil n) := h.untilSome _

theorem collectAll {m n : Walk (Option α)} (h : WalkAgree r m n) :
    WalkAgree r (Walk.collectAll m) (Walk.collectAll n) := h.collect _ []

end WalkAgree

end NodePath
