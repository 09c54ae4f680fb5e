/-
# NodePath.Proofs.Leniency — lenient contexts put up with absence, and with nothing else

Two contexts that differ in leniency only know the same, so an expression comes to the same in both. Only when it has
done so is it asked whether the context is lenient, and only if what it came to is no value or no node. So in a lenient
context the only thing that can go differently is that a text without a value is not reported. Functions of the host
program see the context that they are called in; they are taken not to look at its leniency. A text without a value asks
more of them: a function that reports on its own account that the text has no value fails in both contexts (so they keep
to `Regime.present`), and what a function has changed before the failure stays changed (so they keep to
`Regime.keeping`, where it is said that nothing has changed).

* §A  Contexts that differ in leniency.
* §B  Regimes, and hosts that ignore leniency.
* §C  `EvalPardons`: what comes to no value.
* §D  What changes a store.
* §E  The operations of two contexts.
-/
import NodePath.Proofs.AgreedWriting
import NodePath.Proofs.Documents

namespace NodePath

/-! ## §A  Contexts -/

/-- The layer without what it says about leniency. -/
def Layer.impartial (l : Layer) : Layer := { l with lenient := none }

/-- **SameButLenient** says that two contexts have the same settings in all layers, but for leniency. -/
def Context.SameButLenient (c d : Context) : Prop := d.layers.map Layer.impartial = c.layers.map Layer.impartial

namespace Context.SameButLenient

variable {c d : Context}

theorem refl (c : Context) : c.SameButLenient c := rfl

theorem setLenient (h : c.SameButLenient d) (lenient : Bool) :
    (c.setLenient lenient).SameButLenient (d.setLenient lenient) := h

/-- What a setting is in all layers, if it is not leniency. -/
theorem map_layers (h : c.SameButLenient d) {α : Type} (f : Layer → α) (hf : ∀ l : Layer, f l.impartial = f l) :
    d.layers.map f = c.layers.map f := by
  have hall : ∀ e : Context, (e.layers.map Layer.impartial).map f = e.layers.map f := by
    intro e
    rw [List.map_map]
    exact List.map_congr_left fun l _ => hf l
  rw [← hall d, ← hall c, h]

/-- What a setting is in the own layers. -/
theorem own (h : c.SameButLenient d) {α : Type} (f : Layer → α) (hf : ∀ l : Layer, f l.impartial = f l) :
    f d.own = f c.own := (List.cons.inj (h.map_layers f hf)).1

/-- The nearest setting. -/
theorem findSome? (h : c.SameButLenient d) {α : Type} (f : Layer → Option α)
    (hf : ∀ l : Layer, f l.impartial = f l) : d.layers.findSome? f = c.layers.findSome? f := by
  have hmap : ∀ e : Context, e.layers.findSome? f = (e.layers.map f).findSome? id := fun e => by
    rw [List.findSome?_map]
    rfl
  rw [hmap d, hmap c, h.map_layers f hf]

/-- **Contexts that differ in leniency only know the same.** -/
theorem agree (h : c.SameButLenient d) (good : Store → Prop) : c.Agree good d where
  contextPointer := h.own (·.contextPointer) fun _ => rfl
  rootPointer := h.own (·.rootPointer) fun _ => rfl
  locale := congrArg (·.getD "en") (h.findSome? (·.locale) fun _ => rfl)
  decimalFormat? _ := h.findSome? _ fun _ => rfl
  function? name arity := by
    have hfunctions : d.layers.filterMap (·.functions) = c.layers.filterMap (·.functions) := by
      have hmap := congrArg (List.filterMap id) (h.map_layers (·.functions) fun _ => rfl)
      rwa [List.filterMap_map, List.filterMap_map] at hmap
    unfold Context.function?
    rw [hfunctions]
  keyManager? := h.findSome? _ fun _ => rfl
  identityManager? := h.findSome? _ fun _ => rfl
  variableRef st _ name := by
    unfold Context.variableRef
    rw [h.map_layers (·.scope) fun _ => rfl]
  variableValue? st _ name := by
    unfold Context.variableValue?
    rw [h.map_layers (·.scope) fun _ => rfl]
  addressOf st _ label := by
    have hpointer : d.contextPointer = c.contextPointer := h.own (·.contextPointer) fun _ => rfl
    have hown : d.own.namespaces = c.own.namespaces := h.own (·.namespaces) fun _ => rfl
    unfold Context.addressOf Context.namespaces Context.fromContextNode
    rw [h.map_layers (·.namespaces) fun _ => rfl, hown, hpointer]

end Context.SameButLenient

/-! ## §B  Regimes -/

/-- **Keeps** says that everything a store holds is in another store as it was. -/
structure Store.Keeps (st st' : Store) : Prop where
  document? : ∀ d j, st.document? d = some j → st'.document? d = some j
  forest : st'.forest = st.forest
  scopes : st'.scopes = st.scopes

/-- The regime in which everything is allowed. -/
def Regime.lax : Regime where
  good _ := True
  allows _ _ := True
  admits _ := True
  refl _ := trivial
  trans _ _ := trivial
  stays _ _ := trivial
  addDocument _ _ := trivial
  compile _ _ := trivial
  usual _ := trivial

/-- The regime in which nobody reports that `text` has no value. -/
def Regime.present (text : String) : Regime :=
  { Regime.lax with
    admits := (· ≠ .notFound text)
    usual := by
      rintro _ h rfl
      cases h }

/-- The regime in which everything that a store holds stays as it is. -/
def Regime.keeping : Regime where
  good _ := True
  allows := Store.Keeps
  admits _ := True
  refl _ := ⟨fun _ _ hj => hj, rfl, rfl⟩
  trans h h' := ⟨fun d j hj => h'.document? d j (h.document? d j hj), h'.forest.trans h.forest,
    h'.scopes.trans h.scopes⟩
  stays _ _ := trivial
  addDocument _ j := ⟨fun _ _ hold => Store.document?_addDocument hold j, rfl, rfl⟩
  compile _ _ := ⟨fun _ _ hj => hj, rfl, rfl⟩
  usual _ := trivial

/-- **IgnoresLeniency** says that functions of a host do the same when they are called in contexts that differ in
leniency only: they neither look at it nor read texts that may have no value. And they keep to a regime. Both are asked
of them only as long as what they pull from node-sets is the same and keeps to the regime, too. -/
def Host.IgnoresLeniency (r : Regime) (host : Host) : Prop :=
  ∀ c d : Context, c.SameButLenient d → ∀ level depth node position,
    (c.callAt host level depth node position).Pulls r (d.callAt host level depth node position) →
      ∀ handle vs, EvalAgree r (host handle (c.callAt host level depth node position) vs)
        (host handle (d.callAt host level depth node position) vs)

section

variable {r : Regime} {host : Host} {c d : Context}

/-- **What is evaluated agrees** to every depth of texts. -/
theorem Host.IgnoresLeniency.ready (h : host.IgnoresLeniency r) (hcd : c.SameButLenient d) (level : Nat) :
    Setting.Ready r ((Reading.toDepth host level).setting host c) ((Reading.toDepth host level).setting host d) := by
  -- Texts are read by texts in lenient contexts only, where nothing is reported to be absent.
  induction level generalizing c d with
  | zero =>
    exact {
      context := hcd.agree _
      pointerIn := fun _ => .throw (r.usual rfl)
      hosted := h c d hcd 0 }
  | succ level ih =>
    exact {
      context := hcd.agree _
      pointerIn := fun text => Reading.agree_withText text
        ((ih (hcd.setLenient true)).readPointer rfl (.inl rfl))
      hosted := h c d hcd (level + 1) }

theorem Host.IgnoresLeniency.setting (h : host.IgnoresLeniency r) (hcd : c.SameButLenient d) :
    Setting.Ready r (c.setting host) (d.setting host) := h.ready hcd _

/-- Nothing goes differently where everything is allowed. -/
theorem EvalAgree.eq {α : Type} {m n : Eval α} (h : EvalAgree .lax m n) : n = m := funext fun st => (h st trivial).1

theorem EvalAgree.lax {α : Type} (m : Eval α) : EvalAgree .lax m m := fun _ _ => ⟨rfl, trivial, fun _ _ => trivial⟩

theorem Regime.creates_lax : Regime.lax.Creates := ⟨fun _ _ _ => .lax _, fun _ _ => .lax _⟩

end

/-! ## §C  Absence -/

/-- **EvalPardons** says that two operations on a text do the same, unless the first one fails because the text has no
value. Then the second one may answer something, which is `absent`; what has been changed until then is allowed. -/
def EvalPardons {α : Type} (r : Regime) (text : String) (absent : α → Store → Prop) (m n : Eval α) : Prop :=
  ∀ st, r.good st → n.runOn st = m.runOn st ∨
    ∃ a st', m.runOn st = (.error (.notFound text), st') ∧ n.runOn st = (.ok a, st') ∧ absent a st' ∧ r.allows st st'

namespace EvalPardons

variable {α β : Type} {r : Regime} {text : String} {absent : α → Store → Prop} {m n : Eval α}

theorem of_agree (h : EvalAgree r m n) : EvalPardons r text absent m n := fun st hst => .inl (h st hst).1

/-- After operations that agree. -/
theorem bind {absent : β → Store → Prop} {f g : α → Eval β} (h : EvalAgree r m n)
    (hfg : ∀ a, EvalPardons r text absent (f a) (g a)) : EvalPardons r text absent (m >>= f) (n >>= g) := by
  intro st hst
  obtain ⟨hrun, hallowed, -⟩ := h st hst
  rw [Eval.runOn_bind, Eval.runOn_bind, hrun]
  generalize m.runOn st = x at hallowed ⊢
  obtain ⟨answer, st'⟩ := x
  cases answer with
  | error e => exact .inl rfl
  | ok a =>
    rcases hfg a st' (r.stays hst hallowed) with hsame | ⟨b, st'', hfails, hanswers, habsent, hallowed'⟩
    · exact .inl hsame
    · exact .inr ⟨b, st'', hfails, hanswers, habsent, r.trans hallowed hallowed'⟩

/-- Reading the store. -/
theorem get_bind {f g : Store → Eval α} (h : ∀ st, r.good st → EvalPardons r text absent (f st) (g st)) :
    EvalPardons r text absent (get >>= f) (get >>= g) := by
  intro st hst
  rw [Eval.runOn_bind, Eval.runOn_bind, Eval.runOn_get]
  exact h st hst st hst

/-- What follows an operation of which the second one answered nothing. -/
theorem bind_same (h : EvalPardons r text absent m n) (f : α → Eval β) {st : Store} (hst : r.good st) :
    (n >>= f).runOn st = (m >>= f).runOn st ∨
      ∃ a st', (m >>= f).runOn st = (.error (.notFound text), st') ∧ (n >>= f).runOn st = (f a).runOn st' ∧
        absent a st' ∧ r.allows st st' := by
  rw [Eval.runOn_bind, Eval.runOn_bind]
  rcases h st hst with hsame | ⟨a, st', hfails, hanswers, habsent, hallowed⟩
  · rw [hsame]
    exact .inl rfl
  · rw [hfails, hanswers]
    exact .inr ⟨a, st', rfl, rfl, habsent, hallowed⟩

/-- A text that is attached to errors is that of the value already. -/
theorem withText {f g : Expr → Eval α} (h : ∀ e, EvalPardons r text absent (f e) (g e)) :
    EvalPardons r text absent (Reading.withText text f) (Reading.withText text g) := by
  have hcompiled := bind (EvalAgree.compileText text) h
  intro st hst
  unfold Reading.withText Eval.atPath
  rw [Eval.runOn_tryCatch, Eval.runOn_tryCatch]
  rcases hcompiled st hst with hsame | ⟨a, st', hfails, hanswers, habsent, hallowed⟩
  · rw [hsame]
    exact .inl rfl
  · rw [hfails, hanswers]
    exact .inr ⟨a, st', rfl, rfl, habsent, hallowed⟩

end EvalPardons

/-- What is done to a node that does not exist. -/
theorem Pointer.runOn_missing {α : Type} {p : Pointer} {st : Store} (hp : p.isActual st = false) (m n : Eval α) :
    (do if p.isActual (← get) then m else n).runOn st = n.runOn st := by
  rw [Eval.runOn_bind, Eval.runOn_get]
  dsimp only
  rw [hp]
  rfl

namespace Setting.Ready

variable {r : Regime} {s t : Setting} {text : String} (h : s.Ready r t) (hs : s.context.isLenient = false)
  (ht : t.context.isLenient = true)

include hs ht in
theorem absent_pardons {α : Type} {absent : α → Store → Prop} {usual : α} (habsent : ∀ st, absent usual st) :
    EvalPardons r text absent (s.absent text usual) (t.absent text usual) := by
  intro st _
  unfold Setting.absent
  rw [hs, ht]
  exact .inr ⟨usual, st, rfl, rfl, habsent st, r.refl st⟩

include h hs ht

/-- **A value that is absent** is null in a lenient context. -/
theorem readValue_pardons (e : Expr) :
    EvalPardons r text (fun d _ => d = .null) (s.readValue text e) (t.readValue text e) := by
  have hnull : EvalPardons r text (fun d _ => d = .null) (s.absent text Datum.null) (t.absent text Datum.null) :=
    absent_pardons hs ht fun _ => rfl
  refine .bind (h.glanceValue e) fun d => ?_
  cases d with
  | null =>
    dsimp only
    split
    · exact hnull
    · exact .of_agree (.pure _)
  | pointer p =>
    refine .get_bind fun st _ => ?_
    split
    · exact .of_agree (.pure _)
    · exact hnull
  | _ => exact .of_agree (.pure _)

/-- **A node that is absent** is none in a lenient context, or one that does not exist. -/
theorem readPointer_pardons (e : Expr) :
    EvalPardons r text (fun p? st => ∀ p, p? = some p → p.isActual st = false) (s.readPointer text e)
      (t.readPointer text e) := by
  refine .bind (h.firstPointer e) fun p? => ?_
  cases p? with
  | none =>
    refine absent_pardons hs ht fun st p hp => ?_
    cases hp
  | some p =>
    intro st _
    rw [Eval.runOn_bind, Eval.runOn_bind, Eval.runOn_get]
    dsimp only
    unfold Setting.absent
    rw [hs, ht]
    cases hactual : p.isActual st with
    | true => exact .inl rfl
    | false =>
      refine .inr ⟨some p, st, rfl, rfl, fun q hq => ?_, r.refl st⟩
      cases hq
      exact hactual

/-! ## §D  Changes -/

/-- A node that does not exist is given no value, however lenient the context is. -/
theorem runOn_assign (d : Datum) (e : Expr) {st : Store} (hst : r.good st) :
    (t.assign text d e).runOn st = (s.assign text d e).runOn st := by
  unfold Setting.assign
  rcases (h.readPointer_pardons hs ht e).bind_same _ hst with hsame | ⟨p?, st', hfails, hanswers, habsent, -⟩
  · exact hsame
  · rw [hfails, hanswers]
    cases p? with
    | none => rfl
    | some p => exact Pointer.runOn_missing (habsent p rfl) _ _

/-- A node that does not exist is not removed, but in a lenient context that is no failure. -/
theorem removeOne_pardons (e : Expr) :
    EvalPardons r text (fun _ _ => True) (s.removeOne text e) (t.removeOne text e) := by
  intro st hst
  unfold Setting.removeOne
  rcases (h.readPointer_pardons hs ht e).bind_same _ hst with hsame | ⟨p?, st', hfails, hanswers, habsent, hallowed⟩
  · exact .inl hsame
  · refine .inr ⟨(), st', hfails, ?_, trivial, hallowed⟩
    rw [hanswers]
    cases p? with
    | none => rfl
    | some p => exact Pointer.runOn_missing (habsent p rfl) _ _

end Setting.Ready

/-- No part of a document is removed that is not there, and that is not said to be an absent value. -/
theorem JsonRef.remove_usual {r : JsonRef} {root : Json} {e : EvalError} (h : r.remove root = .error e) :
    e.isAbsence = false := by
  unfold JsonRef.remove at h
  split at h
  · cases h
    rfl
  · split at h
    · cases h
    · cases h
      rfl

/-- Some nodes of element trees cannot be removed, which is not said to be an absent value, either. -/
theorem TreeRef.remove_usual {r : TreeRef} {f : Forest} {e : EvalError} (h : r.remove f = .error e) :
    e.isAbsence = false := by
  unfold TreeRef.remove at h
  split at h
  · split at h
    · cases h
    · cases h
  · cases h
    rfl
  · split at h
    · cases h
      rfl
    · split at h
      · cases h
        rfl
      · dsimp only at h
        split at h
        · cases h
          rfl
        · cases h

/-- **Removing** a node may fail, but never because a text has no value. -/
theorem Pointer.agree_remove (p : Pointer) (text : String) : EvalAgree (.present text) p.remove p.remove := by
  have hmodify : ∀ f : Store → Store, EvalAgree (.present text) (modify f : Eval PUnit) (modify f) := fun f st _ =>
    ⟨rfl, trivial, (Regime.present text).answered _⟩
  have husual : ∀ {α : Type} {e : EvalError}, e.isAbsence = false →
      EvalAgree (.present text) (throw e : Eval α) (throw e) := fun he => .throw ((Regime.present text).usual he)
  cases p with
  | json r =>
    refine .get_bind fun st _ => ?_
    dsimp only
    cases hremove : r.remove ((st.document? r.doc).getD .null) with
    | error e => exact husual (JsonRef.remove_usual hremove)
    | ok root => exact (hmodify _).bind fun _ => .pure _
  | tree r =>
    refine .get_bind fun st _ => ?_
    dsimp only
    cases hremove : r.remove st.forest with
    | error e => exact husual (TreeRef.remove_usual hremove)
    | ok forest => exact (hmodify _).bind fun _ => .pure _
  | var v =>
    have hscope : EvalAgree (.present text) (declaringScope v) (declaringScope v) := by
      unfold declaringScope
      cases v.scope with
      | none => exact husual rfl
      | some scope => exact .get_bind fun _ _ => .ite (.pure _) (husual rfl)
    exact hscope.bind fun _ => hmodify _
  | _ => exact .get_bind fun _ _ => husual rfl

/-- A lenient context removes nodes without reporting that a text has no value. -/
theorem Setting.Ready.removeOne_agree {s : Setting} {text : String} (h : s.Ready (.present text) s)
    (hs : s.context.isLenient = true) (e : Expr) :
    EvalAgree (.present text) (s.removeOne text e) (s.removeOne text e) := by
  refine (h.readPointer rfl (.inl hs) e).bind fun p? => ?_
  cases p? with
  | none => exact .pure ()
  | some p => exact .get_bind fun _ _ => .ite (p.agree_remove text) (.pure ())

/-- **EvalFollows** says that where one operation succeeds another one does the same. -/
def EvalFollows {α : Type} (m n : Eval α) : Prop :=
  ∀ st a st', m.runOn st = (.ok a, st') → n.runOn st = (.ok a, st')

namespace EvalFollows

variable {α β : Type} {m n : Eval α}

theorem refl (m : Eval α) : EvalFollows m m := fun _ _ _ h => h

theorem of_pardons {text : String} {absent : α → Store → Prop} (h : EvalPardons .lax text absent m n) :
    EvalFollows m n := by
  intro st a st' hrun
  rcases h st trivial with hsame | ⟨_, _, hfails, -⟩
  · rw [hsame, hrun]
  · rw [hrun] at hfails
    cases hfails

theorem bind {f g : α → Eval β} (h : EvalFollows m n) (hfg : ∀ a, EvalFollows (f a) (g a)) :
    EvalFollows (m >>= f) (n >>= g) := by
  intro st b st'' hrun
  rw [Eval.runOn_bind] at hrun ⊢
  cases hm : m.runOn st with
  | mk answer st' =>
    rw [hm] at hrun
    cases answer with
    | error e => cases hrun
    | ok a =>
      rw [h st a st' hm]
      exact hfg a st' b st'' hrun

theorem withText {text : String} {f g : Expr → Eval α} (h : ∀ e, EvalFollows (f e) (g e)) :
    EvalFollows (Reading.withText text f) (Reading.withText text g) := by
  have hcompiled : EvalFollows (compileText text >>= f) (compileText text >>= g) := (refl _).bind h
  intro st a st' hrun
  unfold Reading.withText Eval.atPath at hrun ⊢
  rw [Eval.runOn_tryCatch] at hrun ⊢
  rcases hm : (compileText text >>= f).runOn st with ⟨e | b, st₁⟩
  · rw [hm] at hrun
    cases hrun
  · rw [hm] at hrun
    cases hrun
    rw [hcompiled st a st' hm]

end EvalFollows

section

variable {host : Host} {c d : Context}

/-- **Removing nodes by their paths**, by induction on how many they are. -/
theorem Context.removeByPath_follows
    (h : ∀ text, EvalFollows (c.removePath host text) (d.removePath host text)) (ps : List Pointer) :
    EvalFollows (c.removeByPath host ps) (d.removeByPath host ps) := by
  induction ps with
  | nil => exact .refl _
  | cons p ps ih => exact (EvalFollows.refl get).bind fun st => (h _).bind fun _ => ih

/-- The first node is removed as it is, and only the others are looked for again. -/
theorem Context.removeEvery_follows {e : Expr}
    (hpointers : (d.setting host).pointers e = (c.setting host).pointers e)
    (h : ∀ text, EvalFollows (c.removePath host text) (d.removePath host text)) :
    EvalFollows (c.removeEvery host e) (d.removeEvery host e) := by
  unfold Context.removeEvery
  rw [hpointers]
  refine (EvalFollows.refl _).bind fun delivered => (EvalFollows.refl _).bind fun found =>
    (EvalFollows.refl get).bind fun st => ?_
  split
  · exact .refl _
  · exact .refl _
  · exact (EvalFollows.refl _).bind fun _ => removeByPath_follows h _

end

/-! ## §E  Two contexts -/

/-- **EvalSpares** says that an operation on a text does in a lenient context what it does in a strict one, unless it
fails there because the text has no value. Then in the lenient context it succeeds with an answer that is `absent`, where
everything is as the failure left it, which is as it was before. For this last case, functions of the host program must
not report the text to have no value, nor change anything, on their own account. -/
structure EvalSpares {α : Type} (host : Host) (text : String) (absent : α → Store → Prop) (strict lenient : Eval α) :
    Prop where
  same : ∀ st, (strict.runOn st).1 ≠ .error (.notFound text) → lenient.runOn st = strict.runOn st
  spared : host.IgnoresLeniency (.present text) → ∀ st st', strict.runOn st = (.error (.notFound text), st') →
    ∃ a, lenient.runOn st = (.ok a, st') ∧ absent a st' ∧ (host.IgnoresLeniency .keeping → st.Keeps st')

theorem EvalSpares.of_pardons {α : Type} {host : Host} {text : String} {absent : α → Store → Prop}
    {strict lenient : Eval α} (h : EvalPardons .lax text absent strict lenient)
    (hkeeps : host.IgnoresLeniency .keeping → EvalPardons .keeping text absent strict lenient)
    (hpresent : host.IgnoresLeniency (.present text) → EvalAgree (.present text) lenient lenient) :
    EvalSpares host text absent strict lenient where
  same st hst := by
    rcases h st trivial with hsame | ⟨_, _, hfails, -⟩
    · exact hsame
    · rw [hfails] at hst
      exact absurd rfl hst
  spared hhost st st' hfails := by
    -- The failure is not that of something that was evaluated, for the lenient context would have it, too.
    have hanswers : lenient.runOn st ≠ strict.runOn st := by
      intro hsame
      rw [hfails] at hsame
      exact (hpresent hhost st trivial).2.2 _ (congrArg Prod.fst hsame) rfl
    obtain ⟨a, st₁, hfails₁, hrun, habsent, -⟩ := (h st trivial).resolve_left hanswers
    obtain rfl : st' = st₁ := congrArg Prod.snd (hfails.symm.trans hfails₁)
    refine ⟨a, hrun, habsent, fun hkeep => ?_⟩
    obtain ⟨_, st₂, hfails₂, -, -, hkept⟩ := (hkeeps hkeep st trivial).resolve_left hanswers
    obtain rfl : st' = st₂ := congrArg Prod.snd (hfails.symm.trans hfails₂)
    exact hkept

namespace Host.IgnoresLeniency

variable {r : Regime} {host : Host} {c d : Context} {text : String}

/-! Where the text has a value, reading it and removing its node go the same in both contexts. -/

section

variable (h : host.IgnoresLeniency r) (hcd : c.SameButLenient d) (hc : c.isLenient = false) (hd : d.isLenient = true)

include h hcd hc hd

theorem getValue_pardons :
    EvalPardons r text (fun d _ => d = .null) (c.getValue host text) (d.getValue host text) :=
  .withText ((h.setting hcd).readValue_pardons hc hd)

theorem getPointer_pardons :
    EvalPardons r text (fun p? st => ∀ p, p? = some p → p.isActual st = false) (c.getPointer host text)
      (d.getPointer host text) :=
  .withText ((h.setting hcd).readPointer_pardons hc hd)

theorem removePath_pardons :
    EvalPardons r text (fun _ _ => True) (c.removePath host text) (d.removePath host text) :=
  .withText ((h.setting hcd).removeOne_pardons hc hd)

end

/-! And in the lenient context they do not report that the text has no value. -/

section

variable (h : host.IgnoresLeniency (.present text)) (hd : d.isLenient = true)

include h hd

theorem getValue_present : EvalAgree (.present text) (d.getValue host text) (d.getValue host text) :=
  Reading.agree_withText text ((h.setting (.refl d)).readValue rfl (.inl hd))

theorem getPointer_present : EvalAgree (.present text) (d.getPointer host text) (d.getPointer host text) :=
  Reading.agree_withText text ((h.setting (.refl d)).readPointer rfl (.inl hd))

theorem removePath_present : EvalAgree (.present text) (d.removePath host text) (d.removePath host text) :=
  Reading.agree_withText text ((h.setting (.refl d)).removeOne_agree hd)

end

end Host.IgnoresLeniency

/-- **OnlySparesAbsence** says of a strict context and a lenient one that the second goes on where the first reports
that a text has no value, and that otherwise everything goes the same in both. -/
structure Context.OnlySparesAbsence (host : Host) (strict lenient : Context) : Prop where
  iterate : ∀ text, lenient.iterate host text = strict.iterate host text
  iteratePointers : ∀ text, lenient.iteratePointers host text = strict.iteratePointers host text
  selectNodes : ∀ text, lenient.selectNodes host text = strict.selectNodes host text
  setValue : ∀ text d, lenient.setValue host text d = strict.setValue host text d
  createPath : ∀ text, lenient.createPath host text = strict.createPath host text
  createPathAndSetValue : ∀ text d,
    lenient.createPathAndSetValue host text d = strict.createPathAndSetValue host text d
  getValue : ∀ text,
    EvalSpares host text (fun d _ => d = .null) (strict.getValue host text) (lenient.getValue host text)
  getPointer : ∀ text, EvalSpares host text (fun p? st => ∀ p, p? = some p → p.isActual st = false)
    (strict.getPointer host text) (lenient.getPointer host text)
  removePath : ∀ text, EvalSpares host text (fun _ _ => True) (strict.removePath host text)
    (lenient.removePath host text)
  removeAll : ∀ text, EvalFollows (strict.removeAll host text) (lenient.removeAll host text)

/-- **A lenient context only spares absence.** Of two contexts that differ in leniency only, in which functions of the
host program ignore it, the lenient one does what the strict one does, but for texts without a value. There `EvalSpares`
asks two things more of these functions: the lenient context goes on when none of them reports the text to have no value
(`Regime.present`), and it leaves everything as it was when none of them changes anything (`Regime.keeping`). -/
theorem lenient_onlySparesAbsence {host : Host} (hhost : host.IgnoresLeniency .lax) {c d : Context}
    (hcd : c.SameButLenient d) (hc : c.isLenient = false) (hd : d.isLenient = true) :
    c.OnlySparesAbsence host d := by
  have hready : Setting.Ready .lax (c.setting host) (d.setting host) := hhost.setting hcd
  have hpointers : ∀ text, d.iteratePointers host text = c.iteratePointers host text := fun text =>
    (Reading.agree_withText text fun e => (hready.pointers e).bind fun _ => .pure _).eq
  -- Sets are read alike by both contexts. Where one node is asked for, the lenient one pardons its absence, and no more.
  constructor
  case iterate =>
    intro text
    exact (Reading.agree_withText text fun e => (hready.values e).bind fun _ => .pure _).eq
  case iteratePointers => exact hpointers
  case selectNodes =>
    intro text
    unfold Context.selectNodes
    rw [hpointers text]
  case setValue =>
    intro text v
    have hassign : (d.setting host).assign text v = (c.setting host).assign text v := by
      funext e st
      exact hready.runOn_assign hc hd v e trivial
    show Reading.withText text _ = Reading.withText text _
    rw [hassign]
  case createPath =>
    intro text
    exact (Reading.agree_withText text (hready.create Regime.creates_lax text)).eq
  case createPathAndSetValue =>
    intro text v
    refine (Reading.agree_withText text fun e => ?_).eq
    exact (hready.create Regime.creates_lax text e).bind fun p => (EvalAgree.lax _).bind fun _ => .pure p
  case getValue =>
    intro text
    exact .of_pardons (hhost.getValue_pardons hcd hc hd) (fun h => h.getValue_pardons hcd hc hd)
      fun h => h.getValue_present hd
  case getPointer =>
    intro text
    exact .of_pardons (hhost.getPointer_pardons hcd hc hd) (fun h => h.getPointer_pardons hcd hc hd)
      fun h => h.getPointer_present hd
  case removePath =>
    intro text
    exact .of_pardons (hhost.removePath_pardons hcd hc hd) (fun h => h.removePath_pardons hcd hc hd)
      fun h => h.removePath_present hd
  case removeAll =>
    intro text
    refine .withText fun e => Context.removeEvery_follows (hready.pointers e).eq fun text' => ?_
    exact .of_pardons (hhost.removePath_pardons hcd hc hd)

/-- The host with the stock of functions, but for the two that show how lenient the context of their call is. -/
def impartialHost : Host := fun handle =>
  if handle = "lenient" ∨ handle = "eval" then fun _ _ => pure .null else stockHost handle

theorem impartialHost_ignoresLeniency (r : Regime) : impartialHost.IgnoresLeniency r := by
  intro c d _ level depth node position hpulls handle vs
  unfold impartialHost
  split
  · exact .pure _
  · rename_i hhandle
    exact Stock.agree hpulls rfl rfl (fun h => hhandle (.inl h)) (fun h => hhandle (.inr h)) vs

/-- A document with an object in it. -/
def doubledDocument : Json := .object [("a", .object [("b", .int 1)])]

/-- A strict context over a document, with a function of the host program. -/
def doublingContext : Context := Context.atTop.setFunctions [⟨none, "double", 1, 1, .hosted "twice"⟩]

/-- A path that calls that function, and leads to a member that is not there. In the strict context that is an error; in
the lenient one the value is null, and nothing has changed. -/
theorem lenient_onlySparesAbsence_missing :
    doublingContext.SameButLenient (doublingContext.setLenient true) ∧ doublingContext.isLenient = false ∧
      (doublingContext.setLenient true).isLenient = true ∧ impartialHost.IgnoresLeniency .lax ∧
      ∃ st', (doublingContext.getValue impartialHost "a[double(b) = 2]/x").runOn (.holding doubledDocument) =
          (.error (.notFound "a[double(b) = 2]/x"), st') ∧
        ((doublingContext.setLenient true).getValue impartialHost "a[double(b) = 2]/x").runOn
          (.holding doubledDocument) = (.ok .null, st') ∧
        (Store.holding doubledDocument).Keeps st' := by
  have hspares := lenient_onlySparesAbsence (impartialHost_ignoresLeniency _)
    (c := doublingContext) (d := doublingContext.setLenient true) rfl rfl rfl
  have hstrict : ((doublingContext.getValue impartialHost "a[double(b) = 2]/x").runOn
      (.holding doubledDocument)).1.map (fun _ => ()) = .error (.notFound "a[double(b) = 2]/x") := by
    decide +kernel
  refine ⟨rfl, rfl, rfl, impartialHost_ignoresLeniency _, ?_⟩
  cases hrun : (doublingContext.getValue impartialHost "a[double(b) = 2]/x").runOn (.holding doubledDocument) with
  | mk answer st' =>
    rw [hrun] at hstrict
    cases answer with
    | ok d => cases hstrict
    | error e =>
      cases hstrict
      obtain ⟨_, hlenient, rfl, hkeeps⟩ :=
        (hspares.getValue "a[double(b) = 2]/x").spared (impartialHost_ignoresLeniency _) _ st' hrun
      exact ⟨st', rfl, hlenient, hkeeps (impartialHost_ignoresLeniency _)⟩

end NodePath
