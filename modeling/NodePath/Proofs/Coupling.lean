/-
# NodePath.Proofs.Coupling — contexts in each other's place

Contexts take each other's place when they know the same, and are lenient or strict together. Then everything that they
are asked for agrees. Which contexts are compared, in which stores, and which changes are allowed there, is up to a
**Coupling**.

* §A  `Context.Concur` and `Coupling`.
* §B  `EvalConcur`.
* §C  Calls and functions that concur.
* §D  Readings of every depth, and the operations of a context.
-/
import NodePath.Proofs.AgreedReading

namespace NodePath

/-! ## §A  Contexts -/

/-- **Concur** says that two contexts know the same, as far as an evaluation in a good store asks them. -/
structure Context.Concur (good : Store → Prop) (c d : Context) : Prop where
  contextPointer : d.contextPointer = c.contextPointer
  rootPointer : d.rootPointer = c.rootPointer
  isLenient : d.isLenient = c.isLenient
  locale : d.locale = c.locale
  decimalFormat? : ∀ name, d.decimalFormat? name = c.decimalFormat? name
  function? : ∀ name arity, d.function? name arity = c.function? name arity
  keyManager? : d.keyManager? = c.keyManager?
  identityManager? : d.identityManager? = c.identityManager?
  variableRef : ∀ st, good st → ∀ name, d.variableRef st name = c.variableRef st name
  variableValue? : ∀ st, good st → ∀ name, d.variableValue? st name = c.variableValue? st name
  addressOf : ∀ st, good st → ∀ label, d.addressOf st label = c.addressOf st label

theorem Context.Concur.refl (good : Store → Prop) (c : Context) : c.Concur good c where
  contextPointer := rfl
  rootPointer := rfl
  isLenient := rfl
  locale := rfl
  decimalFormat? _ := rfl
  function? _ _ := rfl
  keyManager? := rfl
  identityManager? := rfl
  variableRef _ _ _ := rfl
  variableValue? _ _ _ := rfl
  addressOf _ _ _ := rfl

/-- A context concurs with itself, under either name. -/
theorem Context.Concur.of_eq {good : Store → Prop} {c d : Context} (h : c = d) : c.Concur good d := h ▸ .refl good c

theorem Context.Concur.agree {good : Store → Prop} {c d : Context} (h : c.Concur good d) : c.Agree good d where
  contextPointer := h.contextPointer
  rootPointer := h.rootPointer
  locale := h.locale
  decimalFormat? := h.decimalFormat?
  function? := h.function?
  keyManager? := h.keyManager?
  identityManager? := h.identityManager?
  variableRef := h.variableRef
  variableValue? := h.variableValue?
  addressOf := h.addressOf

/-- A context that is made lenient knows everything else as before. -/
theorem Context.Concur.setLenient {good : Store → Prop} {c d : Context} (h : c.Concur good d) (lenient : Bool) :
    (c.setLenient lenient).Concur good (d.setLenient lenient) where
  contextPointer := h.contextPointer
  rootPointer := h.rootPointer
  isLenient := rfl
  locale := h.locale
  decimalFormat? := h.decimalFormat?
  function? := h.function?
  keyManager? := h.keyManager?
  identityManager? := h.identityManager?
  variableRef := h.variableRef
  variableValue? := h.variableValue?
  addressOf := h.addressOf

/-- **Coupling** is which stores are good, how they may be changed, and which contexts take each other's place. What
every evaluation does to a store, which is to put documents in and to compile texts, is allowed. -/
structure Coupling where
  good : Store → Prop
  allows : Store → Store → Prop
  pairs : Context → Context → Prop
  refl : ∀ st, allows st st
  trans : ∀ {st st' st''}, allows st st' → allows st' st'' → allows st st''
  stays : ∀ {st st'}, good st → allows st st' → good st'
  addDocument : ∀ st (j : Json), allows st (st.addDocument j).1
  compile : ∀ st (text : String), allows st { st with engine := (st.engine.compile text).2 }
  concur : ∀ {c d}, pairs c d → c.Concur good d
  setLenient : ∀ {c d}, pairs c d → pairs (c.setLenient true) (d.setLenient true)

/-! ## §B  Operations on stores -/

/-- **EvalConcur** says that two operations do the same in good stores, and nothing that is not allowed. -/
def EvalConcur {α : Type} (k : Coupling) (m n : Eval α) : Prop :=
  ∀ st, k.good st → n.runOn st = m.runOn st ∧ k.allows st (m.runOn st).2

/-- The regime of a coupling, in which operations may fail in every way. -/
def Coupling.regime (k : Coupling) : Regime where
  good := k.good
  allows := k.allows
  admits _ := True
  refl := k.refl
  trans := k.trans
  stays := k.stays
  addDocument := k.addDocument
  compile := k.compile
  usual _ := trivial

theorem evalConcur_iff {α : Type} {k : Coupling} {m n : Eval α} : EvalConcur k m n ↔ EvalAgree k.regime m n :=
  ⟨fun h st hst => ⟨(h st hst).1, (h st hst).2, fun _ _ => trivial⟩, fun h st hst => ⟨(h st hst).1, (h st hst).2.1⟩⟩

/-! ## §C  Calls and functions -/

section

variable {k : Coupling}

/-- **Concur** says that two calls happen at the same node, and answer what they are asked for the same. -/
structure Call.Concur (k : Coupling) (a b : Call) : Prop where
  pairs : k.pairs a.context b.context
  node : b.node = a.node
  position : b.position = a.position
  evaluate : ∀ text, EvalConcur k (a.evaluate text) (b.evaluate text)
  first : ∀ c, EvalConcur k (a.first c) (b.first c)
  nodes : ∀ c, EvalConcur k (a.nodes c) (b.nodes c)

theorem Call.Concur.pulls {a b : Call} (h : a.Concur k b) : a.Pulls k.regime b :=
  ⟨fun c => evalConcur_iff.mp (h.first c), fun c => evalConcur_iff.mp (h.nodes c)⟩

/-- **Concurs** says that what a function does follows from what its call is and answers. -/
def Action.Concurs (k : Coupling) (f : Action) : Prop :=
  ∀ {a b}, Call.Concur k a b → ∀ vs, EvalConcur k (f a vs) (f b vs)

/-- **The stock** goes by its calls. -/
theorem Stock.concurs (handle : String) : (stockHost handle).Concurs k := by
  intro a b hc vs
  rw [evalConcur_iff]
  by_cases hlenient : handle = "lenient"
  · subst hlenient
    show EvalAgree k.regime (Pure.pure (Value.boolean a.context.isLenient))
      (Pure.pure (Value.boolean b.context.isLenient))
    rw [(k.concur hc.pairs).isLenient]
    exact .pure _
  · by_cases heval : handle = "eval"
    · subst heval
      exact (hc.pulls.glance _).bind fun _ => .get_bind fun _ _ =>
        (evalConcur_iff.mp (hc.evaluate _)).bind fun _ => .pure _
    · exact Stock.agree hc.pulls hc.node hc.position hlenient heval vs

/-- **Concurs** says that the functions of a host do the same when they are called in contexts that take each
other's place, by calls that answer the same. -/
def Host.Concurs (k : Coupling) (host : Host) : Prop :=
  ∀ c d, k.pairs c d → ∀ level depth node position,
    (c.callAt host level depth node position).Concur k (d.callAt host level depth node position) →
      ∀ handle vs, EvalConcur k (host handle (c.callAt host level depth node position) vs)
        (host handle (d.callAt host level depth node position) vs)

theorem Host.concurs_of_actions {host : Host} (h : ∀ handle, (host handle).Concurs k) : host.Concurs k :=
  fun _ _ _ _ _ _ _ hcalls handle vs => h handle hcalls vs

end

/-! ## §D  Readings -/

/-- What a text is used for, in concurrence. -/
theorem Reading.concur_withText {α : Type} {k : Coupling} (text : String) {f g : Expr → Eval α}
    (h : ∀ e, EvalConcur k (f e) (g e)) : EvalConcur k (Reading.withText text f) (Reading.withText text g) :=
  evalConcur_iff.mpr (Reading.agree_withText text fun e => evalConcur_iff.mp (h e))

namespace Host.Concurs

variable {k : Coupling} {host : Host} {c d : Context}

/-- Calls that pull the same concur when they evaluate the same. -/
theorem call (h : host.Concurs k) (hcd : k.pairs c d) {level : Nat}
    (hevaluate : ∀ text, EvalAgree k.regime ((Reading.toDepth host level).value c text)
      ((Reading.toDepth host level).value d text)) (depth : Nat) (node : Option Pointer) (position : Nat)
    (hpulls : (c.callAt host level depth node position).Pulls k.regime (d.callAt host level depth node position))
    (handle : String) (vs : List Value) :
    EvalAgree k.regime (host handle (c.callAt host level depth node position) vs)
      (host handle (d.callAt host level depth node position) vs) :=
  evalConcur_iff.mp <| h c d hcd level depth node position {
    pairs := hcd
    node := rfl
    position := rfl
    evaluate := fun text => evalConcur_iff.mpr (hevaluate text)
    first := fun x => evalConcur_iff.mpr (hpulls.first x)
    nodes := fun x => evalConcur_iff.mpr (hpulls.nodes x) } handle vs

/-- **Texts read the same** to every depth. -/
theorem ready (h : host.Concurs k) (hcd : k.pairs c d) (level : Nat) :
    Setting.Ready k.regime ((Reading.toDepth host level).setting host c)
      ((Reading.toDepth host level).setting host d) := by
  -- What a text reads is read in other contexts, which take each other's place as well.
  induction level generalizing c d with
  | zero =>
    exact {
      context := (k.concur hcd).agree
      pointerIn := fun _ => .throw trivial
      hosted := h.call hcd fun _ => .throw trivial }
  | succ level ih =>
    have hlenient := k.setLenient hcd
    exact {
      context := (k.concur hcd).agree
      pointerIn := fun text => Reading.agree_withText text <|
        (ih hlenient).readPointer (k.concur hlenient).isLenient (.inr trivial)
      hosted := h.call hcd fun text => Reading.agree_withText text <|
        (ih hcd).readValue (k.concur hcd).isLenient (.inr trivial) }

/-- Everything that two contexts evaluate with. -/
theorem setting (h : host.Concurs k) (hcd : k.pairs c d) :
    Setting.Ready k.regime (c.setting host) (d.setting host) := h.ready hcd _

theorem getValue (h : host.Concurs k) (hcd : k.pairs c d) (text : String) :
    EvalConcur k (c.getValue host text) (d.getValue host text) := Reading.concur_withText text fun e =>
  evalConcur_iff.mpr ((h.setting hcd).readValue (k.concur hcd).isLenient (.inr trivial) e)

theorem getPointer (h : host.Concurs k) (hcd : k.pairs c d) (text : String) :
    EvalConcur k (c.getPointer host text) (d.getPointer host text) := Reading.concur_withText text fun e =>
  evalConcur_iff.mpr ((h.setting hcd).readPointer (k.concur hcd).isLenient (.inr trivial) e)

theorem iterate (h : host.Concurs k) (hcd : k.pairs c d) (text : String) :
    EvalConcur k (c.iterate host text) (d.iterate host text) := Reading.concur_withText text fun e =>
  evalConcur_iff.mpr (((h.setting hcd).values e).bind fun _ => .pure _)

theorem iteratePointers (h : host.Concurs k) (hcd : k.pairs c d) (text : String) :
    EvalConcur k (c.iteratePointers host text) (d.iteratePointers host text) := Reading.concur_withText text fun e =>
  evalConcur_iff.mpr (((h.setting hcd).pointers e).bind fun _ => .pure _)

end Host.Concurs

end NodePath
