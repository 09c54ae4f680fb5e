/-
# NodePath.Proofs.FailedCreation — what a creation that fails leaves behind

A path is created step by step in the document itself, and nothing is taken back. Each step either succeeds, or fails
and changes nothing: a predicate that asks for no position is found out before the step makes anything, and a node that
takes no child refuses it before it is given one. So a creation that fails leaves what the steps in front of the failing
one make, which is what the creation of these steps alone makes.

* §A  Hosts that keep what a store holds.
* §B  `EvalHarmless`: operations that fail and change nothing.
* §C  Steps, one after the other.
* §D  The front part of a path, and texts.
-/
import NodePath.Proofs.Creation
import NodePath.Proofs.Leniency
import NodePath.Proofs.LocationPath

namespace NodePath

/-! ## §A  Keeping -/

theorem Store.Keeps.refl (st : Store) : st.Keeps st := Regime.keeping.refl st

theorem Store.Keeps.trans {st st' st'' : Store} (h : st.Keeps st') (h' : st'.Keeps st'') : st.Keeps st'' :=
  Regime.keeping.trans h h'

/-- The coupling of every context with itself in which everything that a store holds stays as it is. -/
def Coupling.keeping : Coupling where
  good _ := True
  allows := Store.Keeps
  pairs := Eq
  refl := .refl
  trans := .trans
  stays _ _ := trivial
  addDocument := Regime.keeping.addDocument
  compile := Regime.keeping.compile
  concur := Coupling.retaining.concur
  setLenient := Coupling.retaining.setLenient

/-- **Keeps** says that the functions of a host change nothing that a store holds, as long as what they ask of their
call changes nothing. -/
def Host.Keeps (host : Host) : Prop := host.Concurs .keeping

theorem Stock.keeps : stockHost.Keeps := Host.concurs_of_actions Stock.concurs

/-- What is asked of an expression keeps what the store holds. -/
theorem Host.Keeps.ready {host : Host} (h : host.Keeps) (c : Context) :
    Setting.Ready .keeping (c.setting host) (c.setting host) := Host.Concurs.setting h rfl

/-! ## §B  Failing without a change -/

/-- **EvalHarmless** says that an operation that fails leaves everything that the store holds as it was. -/
def EvalHarmless {α : Type} (m : Eval α) : Prop :=
  ∀ st e st', m.runOn st = (.error e, st') → st.Keeps st'

namespace EvalHarmless

variable {α β : Type}

/-- What never changes anything does not when it fails. -/
theorem of_keeping {m : Eval α} (h : EvalAgree .keeping m m) : EvalHarmless m := by
  intro st e st' hrun
  have hkept := (h st trivial).2.1
  rwa [hrun] at hkept

theorem throw (e : EvalError) : EvalHarmless (MonadExcept.throw e : Eval α) := of_keeping (.throw trivial)

/-- Behind what never changes anything. -/
theorem bind {m : Eval α} {f : α → Eval β} (h : EvalAgree .keeping m m) (hf : ∀ a, EvalHarmless (f a)) :
    EvalHarmless (m >>= f) := by
  intro st e st' hrun
  have hkept := (h st trivial).2.1
  rw [Eval.runOn_bind] at hrun
  generalize m.runOn st = ran at hrun hkept
  obtain ⟨answer, st₁⟩ := ran
  cases answer with
  | error e' =>
    cases hrun
    exact hkept
  | ok a => exact hkept.trans (hf a st₁ e st' hrun)

/-- In front of what never fails. -/
theorem bind_pure {m : Eval α} (h : EvalHarmless m) (f : α → β) : EvalHarmless (do pure (f (← m))) := by
  intro st e st' hrun
  rw [Eval.runOn_bind] at hrun
  rcases hm : m.runOn st with ⟨answer, st₁⟩
  rw [hm] at hrun
  cases answer with
  | error e' =>
    cases hrun
    exact h st e st' hm
  | ok a => cases hrun

/-- **An edit of a document** that fails has not been made. -/
theorem editDocument (r : JsonRef) (edit : Json → Except EvalError (Json × α)) :
    EvalHarmless (Pointer.editDocument r edit) := by
  intro st e st' hrun
  rw [Pointer.editDocument, Eval.runOn_bind, Eval.runOn_get] at hrun
  dsimp only at hrun
  split at hrun
  · cases hrun
    exact .refl st
  · cases hrun

theorem editForest (edit : Forest → Except EvalError (Forest × α)) : EvalHarmless (Pointer.editForest edit) := by
  intro st e st' hrun
  rw [Pointer.editForest, Eval.runOn_bind, Eval.runOn_get] at hrun
  dsimp only at hrun
  split at hrun
  · cases hrun
    exact .refl st
  · cases hrun

theorem refuseAt (p : Pointer) (what : String) : EvalHarmless (p.refuseAt what : Eval α) :=
  of_keeping (.get_bind fun _ _ => .throw trivial)

end EvalHarmless

namespace Pointer

theorem harmless_createChild (p : Pointer) (name : QName) (index : Option Nat) :
    EvalHarmless (p.createChild name index) := by
  cases p with
  | json r => exact (EvalHarmless.editDocument r _).bind_pure json
  | tree r => exact (EvalHarmless.editForest _).bind_pure tree
  | _ => exact .refuseAt _ _

theorem harmless_createAttribute (p : Pointer) (name : QName) : EvalHarmless (p.createAttribute name) := by
  cases p with
  | json r => exact (EvalHarmless.editDocument r _).bind_pure json
  | tree r => exact (EvalHarmless.editForest _).bind_pure tree
  | _ => exact .refuseAt _ _

theorem harmless_setValue (p : Pointer) (d : Datum) : EvalHarmless (p.setValue d) := by
  have hget : EvalAgree .keeping (get : Eval Store) get := fun st _ => ⟨rfl, .refl st, Regime.keeping.answered _⟩
  cases p with
  | json r => exact .bind hget fun _ => .editDocument r _
  | tree r => exact .bind hget fun _ => .editForest _
  | var v =>
    have hscope : EvalAgree .keeping (declaringScope v) (declaringScope v) := by
      unfold declaringScope
      cases v.scope with
      | none => exact .throw trivial
      | some scope => exact .get_bind fun _ _ => .ite (.pure _) (.throw trivial)
    -- a variable that is declared takes every value
    refine .bind hscope fun s st e st' hrun => ?_
    cases hrun
  | _ => exact .refuseAt _ _

end Pointer

/-! ## §C  Steps -/

namespace Setting

variable {s : Setting} {st st' : Store}

/-- **A step that fails** has changed nothing: what it evaluates comes first, and it makes at most one node. -/
theorem harmless_createStep (h : s.Ready .keeping s) (parent : Pointer) (step : Step) :
    EvalHarmless (s.createStep parent step) := by
  have hhead : EvalAgree .keeping (step.predicates.head?.mapM s.indexOf) (step.predicates.head?.mapM s.indexOf) := by
    cases step.predicates.head? with
    | none => exact .pure none
    | some e =>
      show EvalAgree .keeping (some <$> s.indexOf e) (some <$> s.indexOf e)
      rw [map_eq_pure_bind]
      exact (h.indexOf e).bind fun _ => .pure _
  have hpure : ∀ p : Pointer, EvalHarmless (pure p) := fun p => .of_keeping (.pure p)
  refine .bind hhead fun index => .bind (fun st _ => ⟨rfl, .refl st, Regime.keeping.answered _⟩) fun st => ?_
  split
  · split
    · exact hpure _
    · exact parent.harmless_createChild _ index
  · split
    · exact hpure _
    · exact parent.harmless_createAttribute _
  · exact hpure parent

/-- **Steps that fail** leave what those in front of the failing one make, by induction on how many they are. The
failing one is the `n`th, counted from zero: without it they can be created, with it they cannot. -/
theorem createSteps_error (h : s.Ready .keeping s) {p : Pointer} {steps : List Step} {error : EvalError}
    (hrun : (s.createSteps p steps).runOn st = (.error error, st')) :
    ∃ n < steps.length, ∃ q st₁, (s.createSteps p (steps.take n)).runOn st = (.ok q, st₁) ∧ st₁.Keeps st' ∧
      (s.createSteps p (steps.take (n + 1))).runOn st = (.error error, st') := by
  induction steps generalizing p st with
  | nil => cases hrun
  | cons step steps ih =>
    have hcons : ∀ rest, (s.createSteps p (step :: rest)).runOn st =
        ((p.opened >>= (s.createStep · step)) >>= (s.createSteps · rest)).runOn st := by
      intro rest
      rw [createSteps, bind_assoc]
    rcases hstep : (p.opened >>= (s.createStep · step)).runOn st with ⟨failure | q, st₁⟩
    · -- The first step fails, and leaves everything as it was.
      have hfails : ∀ rest, (s.createSteps p (step :: rest)).runOn st = (.error failure, st₁) := by
        intro rest
        rw [hcons, Eval.runOn_bind, hstep]
      have hharmless : EvalHarmless (p.opened >>= (s.createStep · step)) :=
        .bind (EvalAgree.opened p) fun q => harmless_createStep h q step
      cases (hfails steps).symm.trans hrun
      exact ⟨0, Nat.zero_lt_succ _, p, st, rfl, hharmless st _ _ hstep, hfails []⟩
    · have hrest : ∀ rest, (s.createSteps p (step :: rest)).runOn st = (s.createSteps q rest).runOn st₁ := by
        intro rest
        rw [hcons, Eval.runOn_bind, hstep]
      obtain ⟨n, hn, q', st₂, hfront, hkept, hfails⟩ := ih ((hrest steps).symm.trans hrun)
      refine ⟨n + 1, Nat.succ_lt_succ hn, q', st₂, ?_, hkept, ?_⟩
      · rw [List.take_succ_cons, hrest, hfront]
      · rw [List.take_succ_cons, hrest, hfails]

end Setting

/-! ## §D  Paths -/

namespace Expr

/-- The steps of a path, or of what is followed from a variable. -/
def ownSteps : Expr → List Step
  | path _ steps => steps
  | filter _ _ steps => steps
  | _ => []

/-- **front** is a path up to its `n`th step. -/
def front (n : Nat) : Expr → Expr
  | path absolute steps => path absolute (steps.take n)
  | filter head predicates steps => filter head predicates (steps.take n)
  | e => e

theorem isSimplePath_front {e : Expr} (h : e.isSimplePath = true) (n : Nat) : (e.front n).isSimplePath = true := by
  have htake : ∀ steps : List Step, steps.all StepOf.isSimple = true →
      (steps.take n).all StepOf.isSimple = true := fun steps hsteps =>
    List.all_eq_true.mpr fun step hstep => List.all_eq_true.mp hsteps step (List.mem_of_mem_take hstep)
  cases e with
  | path absolute steps => exact htake steps h
  | filter head predicates steps =>
    cases head with
    | var name =>
      simp only [isSimplePath, Bool.and_eq_true] at h
      simp only [front, isSimplePath, Bool.and_eq_true]
      exact ⟨h.1, htake steps h.2⟩
    | _ => cases h
  | _ => exact h

end Expr

namespace Setting

variable {s : Setting} {st st' : Store} {text : String}

/-- A simple location path is created from where it starts. -/
theorem create_path {absolute : Bool} {steps : List Step} (h : (Expr.path absolute steps).isSimplePath = true) :
    s.create text (.path absolute steps) = s.createSteps (s.context.startOf absolute) steps := by
  rw [create, h]
  rfl

/-- Steps from a variable are created from its node. -/
theorem create_filter {name : QName} {predicates : List Expr} {steps : List Step}
    (h : (Expr.filter (.var name) predicates steps).isSimplePath = true) :
    s.create text (.filter (.var name) predicates steps) =
      s.declaredVariable name >>= (s.createSteps · steps) := by
  rw [create, h]
  rfl

/-- **Every simple path** is created from a node that is found without a change, and so is each front part of it. -/
theorem create_simple (s : Setting) (text : String) {e : Expr} (h : e.isSimplePath = true) :
    ∃ start : Eval Pointer, EvalHarmless start ∧
      (∀ n, s.create text (e.front n) = start >>= (s.createSteps · (e.ownSteps.take n))) ∧
        s.create text e = start >>= (s.createSteps · e.ownSteps) := by
  have hvariable : ∀ name, EvalHarmless (s.declaredVariable name) := fun name =>
    .of_keeping (.get_bind fun _ _ => .ite (.pure _) (.throw trivial))
  have hfront : ∀ n, (e.front n).isSimplePath = true := Expr.isSimplePath_front h
  cases e with
  | path absolute steps =>
    exact ⟨pure (s.context.startOf absolute), .of_keeping (.pure _), fun n => create_path (hfront n), create_path h⟩
  | filter head predicates steps =>
    cases head with
    | var name =>
      exact ⟨s.declaredVariable name, hvariable name, fun n => create_filter (hfront n), create_filter h⟩
    | _ => cases h
  | var name =>
    have hnone : s.create text (.var name) = s.declaredVariable name >>= (s.createSteps · []) :=
      (bind_pure (s.declaredVariable name)).symm
    exact ⟨s.declaredVariable name, hvariable name, fun n => List.take_nil.symm ▸ hnone, hnone⟩
  | _ => cases h

/-- **Stops** says of a creation that fails and leaves `st'` how far it has come: the first `n` steps can be created,
with one step more that is no longer so, and what the `n` steps make is all that is left. -/
structure Stops (s : Setting) (text : String) (e : Expr) (n : Nat) (st st' : Store) : Prop where
  made : ∃ q st₁, (s.create text (e.front n)).runOn st = (.ok q, st₁) ∧ st₁.Keeps st'
  next : n < e.ownSteps.length → ∃ error, (s.create text (e.front (n + 1))).runOn st = (.error error, st')

/-- **A path that cannot be created** has changed nothing, or stops in front of one of its steps. -/
theorem create_error (h : s.Ready .keeping s) {e : Expr} {error : EvalError}
    (hrun : (s.create text e).runOn st = (.error error, st')) :
    st.Keeps st' ∨ ∃ n < e.ownSteps.length, s.Stops text e n st st' := by
  cases hsimple : e.isSimplePath with
  | false =>
    have hthrow : (s.create text e).runOn st = (.error (.invalidSyntax text .notSimple), st) := by
      unfold create
      rw [hsimple]
      rfl
    cases hthrow.symm.trans hrun
    exact .inl (.refl st)
  | true =>
    obtain ⟨start, hstart, hfront, hall⟩ := create_simple s text hsimple
    rw [hall, Eval.runOn_bind] at hrun
    rcases hfound : start.runOn st with ⟨failure | p, st₁⟩
    · rw [hfound] at hrun
      cases hrun
      exact .inl (hstart st _ _ hfound)
    · rw [hfound] at hrun
      obtain ⟨n, hn, q, st₂, hmade, hkept, hfails⟩ := createSteps_error h hrun
      have hrest : ∀ k, (s.create text (e.front k)).runOn st = (s.createSteps p (e.ownSteps.take k)).runOn st₁ := by
        intro k
        rw [hfront, Eval.runOn_bind, hfound]
      exact .inr ⟨n, hn, ⟨q, st₂, (hrest n).trans hmade, hkept⟩, fun _ => ⟨error, (hrest (n + 1)).trans hfails⟩⟩

/-- **A path that can be created, to a node that takes no value**, is left with all its steps. -/
theorem stops_of_setValue {e : Expr} {p : Pointer} {d : Datum} {st₁ : Store} {error : EvalError}
    (hmade : (s.create text e).runOn st = (.ok p, st₁)) (hset : (p.setValue d).runOn st₁ = (.error error, st')) :
    s.Stops text e e.ownSteps.length st st' := by
  have hwhole : e.front e.ownSteps.length = e := by
    cases e with
    | path absolute steps => exact congrArg _ (List.take_length)
    | filter head predicates steps => exact congrArg _ (List.take_length)
    | _ => rfl
  refine ⟨⟨p, st₁, hwhole.symm ▸ hmade, p.harmless_setValue d st₁ _ _ hset⟩, fun hn => ?_⟩
  exact absurd hn (Nat.lt_irrefl _)

end Setting

/-- A text whose use fails either is no text of an expression, and nothing has changed, or the use of its expression
fails. -/
theorem Reading.of_runOn_withText_error {α : Type} {text : String} {use : Expr → Eval α} {error : EvalError}
    {st st' : Store} (hsound : st.engine.Sound) (hrun : (Reading.withText text use).runOn st = (.error error, st')) :
    st.Keeps st' ∨ ∃ e failure, Expr.parse text = .ok e ∧ (use e).runOn (st.compiled text) = (.error failure, st') := by
  cases htext : Expr.parse text with
  | error failure =>
    have hcompile := runOn_compileText text st
    rw [(hsound.compile text).1, htext] at hcompile
    rw [Reading.withText, Eval.atPath, Eval.runOn_tryCatch, Eval.runOn_bind, hcompile] at hrun
    cases hrun
    exact .inl (Regime.keeping.compile st text)
  | ok e =>
    rw [Reading.runOn_withText hsound htext] at hrun
    rcases hused : (use e).runOn (st.compiled text) with ⟨failure | a, st₂⟩
    · rw [hused] at hrun
      cases hrun
      exact .inr ⟨e, failure, rfl, hused⟩
    · rw [hused] at hrun
      cases hrun

/-- **A creation that fails leaves what its front part makes.** Whether a node is only made or is also given a value:
either everything that the store holds is as it was, or the text is a path that stops in front of one of its steps, and
what is left is what the creation of the steps before makes. When a value was to be set it may be that all steps were
created and the last node takes no value. -/
theorem failedCreation_leaves_front {host : Host} (hhost : host.Keeps) (c : Context) (text : String) {st : Store}
    (hsound : st.engine.Sound) :
    (∀ error st', (c.createPath host text).runOn st = (.error error, st') →
      st.Keeps st' ∨ ∃ e n, Expr.parse text = .ok e ∧ n < e.ownSteps.length ∧
        (c.setting host).Stops text e n (st.compiled text) st') ∧
    ∀ d error st', (c.createPathAndSetValue host text d).runOn st = (.error error, st') →
      st.Keeps st' ∨ ∃ e n, Expr.parse text = .ok e ∧ n ≤ e.ownSteps.length ∧
        (c.setting host).Stops text e n (st.compiled text) st' := by
  have hready := hhost.ready c
  have hcompiled : st.Keeps (st.compiled text) := Regime.keeping.compile st text
  refine ⟨fun error st' hrun => ?create, fun d error st' hrun => ?set⟩
  case create =>
    rcases Reading.of_runOn_withText_error hsound hrun with hkept | ⟨e, failure, htext, hfails⟩
    · exact .inl hkept
    · rcases Setting.create_error hready hfails with hkept | ⟨n, hn, hstops⟩
      · exact .inl (hcompiled.trans hkept)
      · exact .inr ⟨e, n, htext, hn, hstops⟩
  case set =>
    rcases Reading.of_runOn_withText_error hsound hrun with hkept | ⟨e, failure, htext, hfails⟩
    · exact .inl hkept
    · rw [Eval.runOn_bind] at hfails
      -- Either a step could not be made, or all of them were and the last node refuses the value.
      rcases hmade : ((c.setting host).create text e).runOn (st.compiled text) with ⟨failure' | p, st₁⟩
      · rcases Setting.create_error hready hmade with hkept | ⟨n, hn, hstops⟩
        · rw [hmade] at hfails
          cases hfails
          exact .inl (hcompiled.trans hkept)
        · rw [hmade] at hfails
          cases hfails
          exact .inr ⟨e, n, htext, hn.le, hstops⟩
      · rw [hmade] at hfails
        dsimp only at hfails
        rw [Eval.runOn_bind] at hfails
        rcases hset : (p.setValue d).runOn st₁ with ⟨failure' | _, st₂⟩
        · rw [hset] at hfails
          cases hfails
          exact .inr ⟨e, _, htext, Nat.le_refl _, Setting.stops_of_setValue hmade hset⟩
        · rw [hset] at hfails
          cases hfails

/-- A document with one member. -/
def smallDocument : Json := .object [("a", .int 1)]

/-- **Nothing is taken back.** The first step makes a member; the second one has a predicate that asks for no position,
so that the creation fails; and the member stays. -/
theorem createPath_failed_changes :
    ((Context.atTop.createPath stockHost "b/c[0]").runOn (.holding smallDocument)).1.isOk = false ∧
      ((Store.holding smallDocument).document? 0).map Json.write = some "\x7b\"a\":1\x7d" ∧
      (((Context.atTop.createPath stockHost "b/c[0]").runOn (.holding smallDocument)).2.document? 0).map Json.write =
        some "\x7b\"a\":1,\"b\":null\x7d" := by
  decide +kernel

/-- The tree of that path. -/
def stoppingPath : Expr :=
  .path false [⟨.child, .name (.plain "b"), []⟩, ⟨.child, .name (.plain "c"), [.number (.ofNat 0)]⟩]

/-- What is left there is what the first one of the two steps makes. -/
theorem failedCreation_leaves_front_small :
    ∃ error st', (Context.atTop.createPath stockHost "b/c[0]").runOn (.holding smallDocument) = (.error error, st') ∧
      Expr.parse "b/c[0]" = .ok stoppingPath ∧
      (Context.atTop.setting stockHost).Stops "b/c[0]" stoppingPath 1
        ((Store.holding smallDocument).compiled "b/c[0]") st' := by
  have hsound : (Store.holding smallDocument).engine.Sound := fun _ hentry => nomatch hentry
  have htext : Expr.parse "b/c[0]" = .ok stoppingPath := by decide +kernel
  have hfails : ((Context.atTop.createPath stockHost "b/c[0]").runOn (.holding smallDocument)).1.isOk = false := by
    decide +kernel
  have hlast : (((Context.atTop.createPath stockHost "b/c[0]").runOn (.holding smallDocument)).2.document? 0).map
      Json.write ≠ some smallDocument.write := by decide +kernel
  rcases hrun : (Context.atTop.createPath stockHost "b/c[0]").runOn (.holding smallDocument) with ⟨error | p, st'⟩
  · -- The document is another one, so that at least one step has been created.
    have hchanged : ∀ st : Store, st.document? 0 = some smallDocument → ¬st.Keeps st' := by
      intro st hst hkept
      rw [hrun, hkept.document? 0 _ hst] at hlast
      exact hlast rfl
    have hleaves := (failedCreation_leaves_front Stock.keeps .atTop "b/c[0]" hsound).1 error st' hrun
    obtain ⟨e, n, htext', hn, hstops⟩ := hleaves.resolve_left (hchanged _ rfl)
    cases htext.symm.trans htext'
    refine ⟨error, st', rfl, htext, ?_⟩
    match n, hn with
    | 0, _ =>
      obtain ⟨q, st₁, hmade, hkept⟩ := hstops.made
      cases hmade
      exact absurd hkept (hchanged _ rfl)
    | 1, _ => exact hstops
  · rw [hrun] at hfails
    cases hfails

end NodePath
