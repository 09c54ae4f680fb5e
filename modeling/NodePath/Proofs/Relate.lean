/-
# NodePath.Proofs.Relate — operations that answer alike

Two operations answer alike when, begun in stores that fit in a world, they end in stores that fit in a world
that has grown, with alike answers or with the same error. For walks there is also a pair of cursors: a
**Link** says how the two belong together. In a *lax* comparison the first of two walks may fail while the
second one does not; that is how a walk on a stage, which may come across a failing predicate, is compared
with one on a set that is known.

* §A  Running operations step by step.
* §B  `EvalAlike`.
* §C  `Link` and `WalkAlike`.
* §D  Repetition.
* §E  `StepAlike`: walks on alike cursors.
-/
import NodePath.Cursor.Walk
import NodePath.Proofs.AlikeValue

namespace NodePath

/-! ## §A  Runs -/

namespace Eval

variable {α β : Type}

@[simp] theorem runOn_pure (a : α) (st : Store) : (pure a : Eval α).runOn st = (.ok a, st) := rfl

@[simp] theorem runOn_throw (e : EvalError) (st : Store) :
    (throw e : Eval α).runOn st = (.error e, st) := rfl

@[simp] theorem runOn_get (st : Store) : (get : Eval Store).runOn st = (.ok st, st) := rfl

theorem runOn_bind (m : Eval α) (f : α → Eval β) (st : Store) :
    (m >>= f).runOn st =
      match m.runOn st with
      | (.ok a, st') => (f a).runOn st'
      | (.error e, st') => (.error e, st') := by
  show (do let r ← ExceptT.run m; ExceptT.bindCont f r : StateM Store _).run st = _
  simp only [StateT.run_bind, Eval.runOn]
  rcases h : (ExceptT.run m).run st with ⟨r, st'⟩
  cases r <;> rfl

theorem runOn_tryCatch (m : Eval α) (f : EvalError → Eval α) (st : Store) :
    (tryCatch m f).runOn st =
      match m.runOn st with
      | (.ok a, st') => (.ok a, st')
      | (.error e, st') => (f e).runOn st' := by
  have hrun : (tryCatch m f).runOn st = (ExceptT.run (tryCatch m f)).run st := rfl
  rw [hrun, ExceptT.run_tryCatch, StateT.run_bind, Eval.runOn]
  rcases (ExceptT.run m).run st with ⟨r, st'⟩
  cases r <;> rfl

@[simp] theorem runOn_change (f : Store → Store × α) (st : Store) :
    (Eval.change f).runOn st = (.ok (f st).2, (f st).1) := rfl

end Eval

namespace Walk

variable {α β : Type}

@[simp] theorem runOn_pure (a : α) (c : Cursor) (st : Store) :
    (pure a : Walk α).runOn c st = (.ok a, c, st) := rfl

@[simp] theorem runOn_throw (e : EvalError) (c : Cursor) (st : Store) :
    (throw e : Walk α).runOn c st = (.error e, c, st) := rfl

theorem runOn_bind (m : Walk α) (f : α → Walk β) (c : Cursor) (st : Store) :
    (m >>= f).runOn c st =
      match m.runOn c st with
      | (.ok a, c', st') => (f a).runOn c' st'
      | (.error e, c', st') => (.error e, c', st') := by
  have hrun : ExceptT.run (m >>= f) =
      (do let r ← ExceptT.run m; ExceptT.bindCont f r : StateT Cursor (StateM Store) _) := rfl
  simp only [Walk.runOn, hrun, StateT.run_bind]
  rcases ((ExceptT.run m).run c).run st with ⟨⟨r, c'⟩, st'⟩
  cases r <;> rfl

/-- A run of two walks that answers is a run of the first and one of the second. -/
theorem of_runOn_bind {m : Walk α} {f : α → Walk β} {c c' : Cursor} {st st' : Store} {b : β}
    (h : (m >>= f).runOn c st = (.ok b, c', st')) :
    ∃ a c₁ st₁, m.runOn c st = (.ok a, c₁, st₁) ∧ (f a).runOn c₁ st₁ = (.ok b, c', st') := by
  rw [runOn_bind] at h
  rcases hm : m.runOn c st with ⟨r, c₁, st₁⟩
  rw [hm] at h
  cases r with
  | ok a => exact ⟨a, c₁, st₁, rfl, h⟩
  | error e => cases h

theorem runOn_map (f : α → β) (m : Walk α) (c : Cursor) (st : Store) :
    (f <$> m).runOn c st = ((m.runOn c st).1.map f, (m.runOn c st).2) := by
  rw [map_eq_pure_bind, runOn_bind]
  rcases m.runOn c st with ⟨r, c', st'⟩
  cases r <;> rfl

@[simp] theorem runOn_lift (m : Eval α) (c : Cursor) (st : Store) :
    (Walk.lift m).runOn c st = ((m.runOn st).1, c, (m.runOn st).2) := rfl

@[simp] theorem runOn_monadLift (m : Eval α) (c : Cursor) (st : Store) :
    (liftM m : Walk α).runOn c st = ((m.runOn st).1, c, (m.runOn st).2) := rfl

@[simp] theorem runOn_store (c : Cursor) (st : Store) : Walk.store.runOn c st = (.ok st, c, st) := rfl

@[simp] theorem runOn_cursor (c : Cursor) (st : Store) : Walk.cursor.runOn c st = (.ok c, c, st) := rfl

@[simp] theorem runOn_frame (c : Cursor) (st : Store) : Walk.frame.runOn c st = (.ok c.frame, c, st) := rfl

theorem runOn_cursor_bind (f : Cursor → Walk β) (c : Cursor) (st : Store) :
    (Walk.cursor >>= f).runOn c st = (f c).runOn c st := by rw [runOn_bind, runOn_cursor]

theorem runOn_frame_bind (f : Frame → Walk β) (c : Cursor) (st : Store) :
    (Walk.frame >>= f).runOn c st = (f c.frame).runOn c st := by rw [runOn_bind, runOn_frame]

@[simp] theorem runOn_move (f : Cursor → Cursor) (c : Cursor) (st : Store) :
    (Walk.move f).runOn c st = (.ok (), f c, st) := rfl

@[simp] theorem runOn_modifyFrame (f : Frame → Frame) (c : Cursor) (st : Store) :
    (Walk.modifyFrame f).runOn c st = (.ok (), { c with frame := f c.frame }, st) := rfl

@[simp] theorem runOn_attempt (m : Walk α) (c : Cursor) (st : Store) :
    (Walk.attempt m).runOn c st = (.ok (m.runOn c st).1, (m.runOn c st).2) := rfl

@[simp] theorem runOn_ofExcept (r : Except EvalError α) (c : Cursor) (st : Store) :
    (Walk.ofExcept r).runOn c st = (r, c, st) := by
  cases r <;> rfl

theorem runOn_inEarlier (absent : α) (m : Walk α) (c : Cursor) (st : Store) :
    (Walk.inEarlier absent m).runOn c st =
      match c.earlier with
      | [] => (.ok absent, c, st)
      | f :: fs =>
        match m.runOn ⟨f, fs⟩ st with
        | (r, up, st') => (r, ⟨c.frame, up.frame :: up.earlier⟩, st') := by
  obtain ⟨g, fs⟩ := c
  cases fs <;> rfl

theorem runOn_onCursor (c : Cursor) (m : Walk α) (st : Store) :
    (Walk.onCursor c m).runOn st = ((m.runOn c st).1.map (·, (m.runOn c st).2.1), (m.runOn c st).2.2) := by
  show ((do let x ← (ExceptT.run m).run c; pure (x.1.map (·, x.2)) : StateM Store _)).run st = _
  simp only [StateT.run_bind, Walk.runOn]
  rfl

theorem runOn_within (c : Cursor) (m : Walk α) (st : Store) :
    (Walk.within c m).runOn st = ((m.runOn c st).1, (m.runOn c st).2.2) := by
  simp only [Walk.within, Eval.runOn_bind, runOn_onCursor]
  cases (m.runOn c st).1 <;> rfl

/-- A repetition that answers in its first round. -/
theorem runOn_repeatUntil_some {m : Walk (Option α)} {c c' : Cursor} {st st' : Store} {a : α}
    (h : m.runOn c st = (.ok (some a), c', st')) : (Walk.repeatUntil m).runOn c st = (.ok a, c', st') := by
  have hlimit : Walk.limit = (Walk.limit - 1) + 1 := by decide
  rw [Walk.repeatUntil, hlimit, Walk.untilSome, runOn_bind, h]
  rfl

/-- What answers nothing at once is collected to nothing. -/
theorem runOn_collectAll_none {m : Walk (Option α)} {c c' : Cursor} {st st' : Store}
    (h : m.runOn c st = (.ok none, c', st')) : (Walk.collectAll m).runOn c st = (.ok [], c', st') := by
  have hlimit : Walk.limit = (Walk.limit - 1) + 1 := by decide
  rw [Walk.collectAll, hlimit, Walk.collect, runOn_bind, h]
  rfl

end Walk

/-! ## §B  Operations on stores -/

/-- **Relation** is how the answers of two operations are compared in a world; what is alike stays so when the
world grows. -/
structure Relation (α β : Type) where
  rel : World → α → β → Prop
  grow : ∀ {w w' a b}, w.Grows w' → rel w a b → rel w' a b

namespace Relation

variable {α β : Type}

/-- The answers are equal. -/
def eq (α : Type) : Relation α α := ⟨fun _ => Eq, fun _ h => h⟩

/-- Answers that may be missing. -/
def option (R : Relation α β) : Relation (Option α) (Option β) :=
  ⟨fun w => Option.Rel (R.rel w), fun hw h => Option.Rel.imp (R.grow hw) h⟩

/-- Lists of answers. -/
def list (R : Relation α β) : Relation (List α) (List β) :=
  ⟨fun w => List.Forall₂ (R.rel w), fun hw h => h.imp fun _ _ => R.grow hw⟩

/-- Answers or errors. -/
def except (R : Relation α β) : Relation (Except EvalError α) (Except EvalError β) :=
  ⟨fun w => ExceptAlike (R.rel w), fun hw h => h.imp (R.grow hw)⟩

/-- Pairs of answers. -/
def prod {γ δ : Type} (R : Relation α β) (S : Relation γ δ) : Relation (α × γ) (β × δ) :=
  ⟨fun w p q => R.rel w p.1 q.1 ∧ S.rel w p.2 q.2, fun hw h => ⟨R.grow hw h.1, S.grow hw h.2⟩⟩

/-- Nodes. -/
def pointer : Relation Pointer Pointer := ⟨Pointer.Alike, Pointer.Alike.grow⟩

/-- Data. -/
def datum : Relation Datum Datum := ⟨Datum.Alike, Datum.Alike.grow⟩

/-- Values of expressions. -/
def value : Relation Value Value := ⟨Value.Alike, Value.Alike.grow⟩

/-- Cursors. -/
def cursor : Relation Cursor Cursor := ⟨Cursor.Alike, Cursor.Alike.grow⟩

/-- Operands of comparisons. -/
def operand : Relation Operand Operand := ⟨Operand.Alike, Operand.Alike.grow⟩

end Relation

/-- **EvalAlike** says that two operations answer alike in every world that has grown from `w`. -/
def EvalAlike {α β : Type} (w : World) (R : Relation α β) (m : Eval α) (n : Eval β) : Prop :=
  ∀ v, w.Grows v → ∀ st st', v.Holds st st' → ∃ v', v.Grows v' ∧
    v'.Holds (m.runOn st).2 (n.runOn st').2 ∧ ExceptAlike (R.rel v') (m.runOn st).1 (n.runOn st').1

namespace EvalAlike

variable {α β γ δ : Type} {w w' : World} {R : Relation α β} {S : Relation γ δ}

theorem grow {m : Eval α} {n : Eval β} (hw : w.Grows w') (h : EvalAlike w R m n) : EvalAlike w' R m n :=
  fun v hv => h v (hw.trans hv)

theorem pure {a : α} {b : β} (h : R.rel w a b) : EvalAlike w R (Pure.pure a) (Pure.pure b) :=
  fun v hv _ _ hst => ⟨v, .refl v, hst, .ok (R.grow hv h)⟩

theorem throw (e : EvalError) : EvalAlike w R (MonadExcept.throw e) (MonadExcept.throw e) :=
  fun v _ _ _ hst => ⟨v, .refl v, hst, .error e⟩

theorem bind {m : Eval α} {n : Eval β} {f : α → Eval γ} {g : β → Eval δ} (h : EvalAlike w R m n)
    (hfg : ∀ v a b, w.Grows v → R.rel v a b → EvalAlike v S (f a) (g b)) :
    EvalAlike w S (m >>= f) (n >>= g) := by
  intro v hv st st' hst
  obtain ⟨u, hu, hst', hr⟩ := h v hv st st' hst
  rw [Eval.runOn_bind, Eval.runOn_bind]
  generalize m.runOn st = x, n.runOn st' = y at hst' hr ⊢
  obtain ⟨r, st₁⟩ := x
  obtain ⟨r', st₂⟩ := y
  cases hr with
  | ok hab =>
    obtain ⟨u', hu', hres⟩ := hfg u _ _ (hv.trans hu) hab u (.refl u) _ _ hst'
    exact ⟨u', hu.trans hu', hres⟩
  | error e => exact ⟨u, hu, hst', .error e⟩

/-- A catch that does the same for every error. -/
theorem tryCatch {m : Eval α} {n : Eval β} {f : EvalError → Eval α} {g : EvalError → Eval β}
    (h : EvalAlike w R m n) (hfg : ∀ v e, w.Grows v → EvalAlike v R (f e) (g e)) :
    EvalAlike w R (MonadExcept.tryCatch m f) (MonadExcept.tryCatch n g) := by
  intro v hv st st' hst
  obtain ⟨u, hu, hst', hr⟩ := h v hv st st' hst
  rw [Eval.runOn_tryCatch, Eval.runOn_tryCatch]
  generalize m.runOn st = x, n.runOn st' = y at hst' hr ⊢
  obtain ⟨r, st₁⟩ := x
  obtain ⟨r', st₂⟩ := y
  cases hr with
  | ok hab => exact ⟨u, hu, hst', .ok hab⟩
  | error e =>
    obtain ⟨u', hu', hres⟩ := hfg u e (hv.trans hu) u (.refl u) _ _ hst'
    exact ⟨u', hu.trans hu', hres⟩

/-- Reading the store. -/
theorem get_bind {f : Store → Eval γ} {g : Store → Eval δ}
    (h : ∀ v st st', w.Grows v → v.Holds st st' → EvalAlike v S (f st) (g st')) :
    EvalAlike w S (get >>= f) (get >>= g) := by
  intro v hv st st' hst
  simpa only [Eval.runOn_bind, Eval.runOn_get] using h v st st' hv hst v (.refl v) st st' hst

end EvalAlike

/-! ## §C  Walks -/

/-- **Link** is how two cursors belong together in a world; that outlasts the growth of the world. -/
structure Link where
  rel : World → Cursor → Cursor → Prop
  grow : ∀ {w w' c d}, w.Grows w' → rel w c d → rel w' c d

/-- The cursors are alike. -/
def Link.alike : Link := ⟨Cursor.Alike, Cursor.Alike.grow⟩

/-- **WalkAlike** says that two walks on linked cursors answer alike, and leave them linked. If `lax` holds, the
first walk may fail instead. -/
def WalkAlike {α β : Type} (w : World) (L : Link) (lax : Prop) (R : Relation α β) (m : Walk α) (n : Walk β) :
    Prop :=
  ∀ v, w.Grows v → ∀ c d st st', L.rel v c d → v.Holds st st' →
    (lax ∧ ∃ e, (m.runOn c st).1 = .error e) ∨
      ∃ v', v.Grows v' ∧ L.rel v' (m.runOn c st).2.1 (n.runOn d st').2.1 ∧
        v'.Holds (m.runOn c st).2.2 (n.runOn d st').2.2 ∧
        ExceptAlike (R.rel v') (m.runOn c st).1 (n.runOn d st').1

namespace WalkAlike

variable {α β γ δ : Type} {w w' : World} {L : Link} {lax : Prop} {R : Relation α β} {S : Relation γ δ}

theorem grow {m : Walk α} {n : Walk β} (hw : w.Grows w') (h : WalkAlike w L lax R m n) :
    WalkAlike w' L lax R m n := fun v hv => h v (hw.trans hv)

theorem pure {a : α} {b : β} (h : R.rel w a b) : WalkAlike w L lax R (Pure.pure a) (Pure.pure b) :=
  fun v hv _ _ _ _ hL hst => .inr ⟨v, .refl v, hL, hst, .ok (R.grow hv h)⟩

theorem throw (e : EvalError) : WalkAlike w L lax R (MonadExcept.throw e) (MonadExcept.throw e) :=
  fun v _ _ _ _ _ hL hst => .inr ⟨v, .refl v, hL, hst, .error e⟩

theorem bind {m : Walk α} {n : Walk β} {f : α → Walk γ} {g : β → Walk δ} (h : WalkAlike w L lax R m n)
    (hfg : ∀ v a b, w.Grows v → R.rel v a b → WalkAlike v L lax S (f a) (g b)) :
    WalkAlike w L lax S (m >>= f) (n >>= g) := by
  intro v hv c d st st' hL hst
  rw [Walk.runOn_bind, Walk.runOn_bind]
  have hm := h v hv c d st st' hL hst
  generalize m.runOn c st = x, n.runOn d st' = y at hm ⊢
  obtain ⟨r, c₁, st₁⟩ := x
  obtain ⟨r', d₁, st₂⟩ := y
  -- A failure of the first walk is excused for the whole; otherwise both go on in the world that has grown.
  rcases hm with ⟨hlax, e, he⟩ | ⟨u, hu, hL', hst', hr⟩
  · obtain rfl : r = .error e := he
    exact .inl ⟨hlax, e, rfl⟩
  · cases hr with
    | ok hab =>
      rcases hfg u _ _ (hv.trans hu) hab u (.refl u) _ _ _ _ hL' hst' with hl | ⟨u', hu', hres⟩
      · exact .inl hl
      · exact .inr ⟨u', hu.trans hu', hres⟩
    | error e => exact .inr ⟨u, hu, hL', hst', .error e⟩

/-- An operation that does not look at the cursor. -/
theorem lift {m : Eval α} {n : Eval β} (h : EvalAlike w R m n) :
    WalkAlike w L lax R (Walk.lift m) (Walk.lift n) := by
  intro v hv c d st st' hL hst
  obtain ⟨u, hu, hst', hr⟩ := h v hv st st' hst
  exact .inr ⟨u, hu, L.grow hu hL, hst', hr⟩

theorem monadLift {m : Eval α} {n : Eval β} (h : EvalAlike w R m n) :
    WalkAlike w L lax R (liftM m : Walk α) (liftM n : Walk β) := lift h

/-- Reading the store. -/
theorem store_bind {f : Store → Walk γ} {g : Store → Walk δ}
    (h : ∀ v st st', w.Grows v → v.Holds st st' → WalkAlike v L lax S (f st) (g st')) :
    WalkAlike w L lax S (Walk.store >>= f) (Walk.store >>= g) := by
  intro v hv c d st st' hL hst
  simpa only [Walk.runOn_bind, Walk.runOn_store] using h v st st' hv hst v (.refl v) c d st st' hL hst

theorem mono {R' : Relation α β} {m : Walk α} {n : Walk β} (h : WalkAlike w L lax R m n)
    (hR : ∀ v a b, w.Grows v → R.rel v a b → R'.rel v a b) : WalkAlike w L lax R' m n := by
  intro v hv c d st st' hL hst
  rcases h v hv c d st st' hL hst with hl | ⟨u, hu, hL', hst', hr⟩
  · exact .inl hl
  · refine .inr ⟨u, hu, hL', hst', ?_⟩
    generalize (m.runOn c st).1 = x, (n.runOn d st').1 = y at hr ⊢
    cases hr with
    | ok hab => exact .ok (hR u _ _ (hv.trans hu) hab)
    | error e => exact .error e

/-- The outcome of an operation that cannot move anything. -/
theorem ofExcept {r : Except EvalError α} {r' : Except EvalError β} (h : ExceptAlike (R.rel w) r r') :
    WalkAlike w L lax R (Walk.ofExcept r) (Walk.ofExcept r') := by
  cases h with
  | ok hab => exact pure hab
  | error e => exact throw e

/-- A list of operations, one after the other. -/
theorem mapM {ι : Type} {f : ι → Walk α} {g : ι → Walk β} {is : List ι}
    (h : ∀ i ∈ is, WalkAlike w L lax R (f i) (g i)) :
    WalkAlike w L lax R.list (is.mapM f) (is.mapM g) := by
  induction is generalizing w with
  | nil => exact pure .nil
  | cons i is ih =>
    simp only [List.mapM_cons]
    refine (h i List.mem_cons_self).bind fun v a b hv hab => ?_
    refine (ih fun j hj => (h j (List.mem_cons_of_mem i hj)).grow hv).bind fun u as bs hu hs => ?_
    exact pure (.cons (R.grow hu hab) hs)

/-! ## §D  Repetition -/

/-- Repetition, as long as nothing is answered. -/
theorem untilSome {m : Walk (Option α)} {n : Walk (Option β)} (h : WalkAlike w L lax R.option m n)
    (times : Nat) : WalkAlike w L lax R (Walk.untilSome m times) (Walk.untilSome n times) := by
  induction times generalizing w with
  | zero => exact throw _
  | succ times ih =>
    refine h.bind fun v a? b? hv hab => ?_
    cases hab with
    | some hab => exact pure hab
    | none => exact ih (h.grow hv)

/-- Repetition, as long as something is answered. -/
theorem collect {m : Walk (Option α)} {n : Walk (Option β)} (h : WalkAlike w L lax R.option m n)
    (times : Nat) {as : List α} {bs : List β} (hs : R.list.rel w as bs) :
    WalkAlike w L lax R.list (Walk.collect m times as) (Walk.collect n times bs) := by
  induction times generalizing w as bs with
  | zero => exact throw _
  | succ times ih =>
    refine h.bind fun v a? b? hv hab => ?_
    cases hab with
    | some hab => exact ih (h.grow hv) (.cons hab (R.list.grow hv hs))
    | none => exact pure (List.rel_reverse (R.list.grow hv hs))

theorem repeatUntil {m : Walk (Option α)} {n : Walk (Option β)} (h : WalkAlike w L lax R.option m n) :
    WalkAlike w L lax R (Walk.repeatUntil m) (Walk.repeatUntil n) := h.untilSome _

theorem collectAll {m : Walk (Option α)} {n : Walk (Option β)} (h : WalkAlike w L lax R.option m n) :
    WalkAlike w L lax R.list (Walk.collectAll m) (Walk.collectAll n) := h.collect _ .nil

end WalkAlike

/-! ## §E  Walks on alike cursors -/

/-- **StepAlike** compares two walks on alike cursors, both of which may fail, in the same way. -/
abbrev StepAlike {α β : Type} (w : World) (R : Relation α β) (m : Walk α) (n : Walk β) : Prop :=
  WalkAlike w .alike False R m n

namespace StepAlike

variable {α β γ δ : Type} {w : World} {R : Relation α β} {S : Relation γ δ}

/-- Two walks that are run on alike cursors. -/
theorem run {m : Walk α} {n : Walk β} (h : StepAlike w R m n) {v : World} (hv : w.Grows v) {c d : Cursor}
    {st st' : Store} (hc : c.Alike v d) (hst : v.Holds st st') :
    ∃ v', v.Grows v' ∧ (m.runOn c st).2.1.Alike v' (n.runOn d st').2.1 ∧
      v'.Holds (m.runOn c st).2.2 (n.runOn d st').2.2 ∧
      ExceptAlike (R.rel v') (m.runOn c st).1 (n.runOn d st').1 :=
  (h v hv c d st st' hc hst).resolve_left fun hl => hl.1

theorem of_run {m : Walk α} {n : Walk β}
    (h : ∀ v, w.Grows v → ∀ c d st st', c.Alike v d → v.Holds st st' →
      ∃ v', v.Grows v' ∧ (m.runOn c st).2.1.Alike v' (n.runOn d st').2.1 ∧
        v'.Holds (m.runOn c st).2.2 (n.runOn d st').2.2 ∧
        ExceptAlike (R.rel v') (m.runOn c st).1 (n.runOn d st').1) : StepAlike w R m n :=
  fun v hv c d st st' hc hst => .inr (h v hv c d st st' hc hst)

/-- Looking at the cursor. -/
theorem cursor_bind {f : Cursor → Walk γ} {g : Cursor → Walk δ}
    (h : ∀ v c d, w.Grows v → c.Alike v d → StepAlike v S (f c) (g d)) :
    StepAlike w S (Walk.cursor >>= f) (Walk.cursor >>= g) := by
  intro v hv c d st st' hc hst
  simpa only [Walk.runOn_bind, Walk.runOn_cursor] using h v c d hv hc v (.refl v) c d st st' hc hst

/-- Looking at the last frame. -/
theorem frame_bind {f : Frame → Walk γ} {g : Frame → Walk δ}
    (h : ∀ v a b, w.Grows v → a.Alike v b → StepAlike v S (f a) (g b)) :
    StepAlike w S (Walk.frame >>= f) (Walk.frame >>= g) := by
  intro v hv c d st st' hc hst
  simpa only [Walk.runOn_bind, Walk.runOn_frame] using
    h v c.frame d.frame hv hc.frame v (.refl v) c d st st' hc hst

/-- Moving by functions that keep cursors alike. -/
theorem move {f g : Cursor → Cursor} (h : ∀ v c d, w.Grows v → c.Alike v d → (f c).Alike v (g d)) :
    StepAlike w (.eq Unit) (Walk.move f) (Walk.move g) :=
  .of_run fun v hv c d _ _ hc hst => ⟨v, .refl v, h v c d hv hc, hst, .ok rfl⟩

theorem modifyFrame {f g : Frame → Frame} (h : ∀ v a b, w.Grows v → a.Alike v b → (f a).Alike v (g b)) :
    StepAlike w (.eq Unit) (Walk.modifyFrame f) (Walk.modifyFrame g) :=
  move fun v _ _ hv hc => ⟨h v _ _ hv hc.frame, hc.earlier⟩

/-- Taking the outcome, also an error, as an answer. -/
theorem attempt {m : Walk α} {n : Walk β} (h : StepAlike w R m n) :
    StepAlike w R.except (Walk.attempt m) (Walk.attempt n) := by
  refine .of_run fun v hv c d st st' hc hst => ?_
  obtain ⟨u, hu, hc', hst', hr⟩ := h.run hv hc hst
  exact ⟨u, hu, hc', hst', .ok hr⟩

/-- Working on the stages before the last one. -/
theorem inEarlier {m : Walk α} {n : Walk β} (h : StepAlike w R m n) {a : α} {b : β} (hab : R.rel w a b) :
    StepAlike w R (Walk.inEarlier a m) (Walk.inEarlier b n) := by
  refine .of_run fun v hv c d st st' hc hst => ?_
  obtain ⟨f, fs⟩ := c
  obtain ⟨g, gs⟩ := d
  rw [Walk.runOn_inEarlier, Walk.runOn_inEarlier]
  cases hc.earlier with
  | nil => exact ⟨v, .refl v, hc, hst, .ok (R.grow hv hab)⟩
  | cons hf hs =>
    have hup : Cursor.Alike v ⟨_, _⟩ ⟨_, _⟩ := ⟨hf, hs⟩
    obtain ⟨u, hu, hc', hst', hr⟩ := h.run hv hup hst
    exact ⟨u, hu, ⟨hc.frame.grow hu, .cons hc'.frame hc'.earlier⟩, hst', hr⟩

/-- Running a walk on a cursor of its own. -/
theorem within {m : Walk α} {n : Walk β} (h : StepAlike w R m n) {c d : Cursor} (hc : c.Alike w d) :
    EvalAlike w R (Walk.within c m) (Walk.within d n) := by
  intro v hv st st' hst
  obtain ⟨u, hu, -, hst', hr⟩ := h.run hv (hc.grow hv) hst
  rw [Walk.runOn_within, Walk.runOn_within]
  exact ⟨u, hu, hst', hr⟩

end StepAlike

end NodePath
