/-
# NodePath.Proofs.Inheritance — a relative context answers as its parent

A context that is made at the context node of another one, and has no settings of its own yet, knows what its parent
knows: each setting is looked up through the layers, and its own layer is empty. So whatever it is asked, it answers as
its parent does. There is one exception. The node whose declarations are visible is not looked up through the layers, so
that a parent with such a node set knows labels that the relative context does not, unless the context node sees the
same declarations.

* §A  Layers without settings, and what is seen from a node.
* §B  `Coupling.inheriting`, and functions that go by what contexts know.
* §C  What a relative context answers.
* §D  The namespace node.
-/
import NodePath.Proofs.Coupling
import NodePath.Proofs.Documents

namespace NodePath

/-! ## §A  Empty layers -/

/-- **SeesAs** says that the same declarations are visible from two nodes of a store. -/
def Pointer.SeesAs (st : Store) (p q : Pointer) : Prop :=
  ∀ name, p.addressOf st name = q.addressOf st name ∧ p.labelOf st name = q.labelOf st name

/-- Addresses are declared in trees. -/
theorem Pointer.addressOf_of_forest {st st' : Store} (h : st'.forest = st.forest) (p : Pointer) (label : String) :
    p.addressOf st' label = p.addressOf st label := by
  induction p with
  | tree r => rw [addressOf, addressOf, h]
  | absentUnder q _ ih => exact ih
  | _ => rfl

/-- So are labels. -/
theorem Pointer.labelOf_of_forest {st st' : Store} (h : st'.forest = st.forest) (p : Pointer) (address : String) :
    p.labelOf st' address = p.labelOf st address := by
  refine congrArg (List.findSome? · (p :: p.above)) (funext fun q => ?_)
  cases q with
  | tree r =>
    -- What declares something is in a tree itself.
    simp only [declarations, List.findSome?_map, h]
    refine congrArg (List.findSome? · _) (funext fun d => ?_)
    simp only [Function.comp, name, value, h]
    rfl
  | _ => rfl

/-- What two nodes see is the same as long as the trees are. -/
theorem Pointer.SeesAs.of_forest {st st' : Store} {p q : Pointer} (h : p.SeesAs st q) (hforest : st'.forest = st.forest) :
    p.SeesAs st' q := by
  intro name
  rw [addressOf_of_forest hforest, addressOf_of_forest hforest, labelOf_of_forest hforest, labelOf_of_forest hforest]
  exact h name

/-- **SeesAlike** says of a context in a store that its namespace node, if one is set, sees what its context node sees. -/
def Context.SeesAlike (c : Context) (st : Store) : Prop :=
  ∀ p, c.own.namespaces.node = some p → p.SeesAs st c.contextPointer

/-- The context inside another one, at the same node, with variables of its own in `scope`. -/
def Context.inner (c : Context) (scope : ScopeId) : Context :=
  ⟨freshLayer c.contextPointer c.contextPointer.top scope, c.layers⟩

namespace Context

theorem runOn_relative (c : Context) (st : Store) :
    (c.relative c.contextPointer).runOn st = (.ok (c.inner st.scopes.size), st.addScope.1) := rfl

section

variable {c : Context} {scope : ScopeId} {st : Store}

/-- A set of variables without any declares none. -/
theorem inner_variableRef (h : st.scope scope = []) (name : QName) :
    (c.inner scope).variableRef st name = c.variableRef st name := by
  -- The new set of variables is asked first, and passes on.
  have hnot : ((st.scope scope).get? name.written).isSome = false := by
    rw [h]
    rfl
  show VarRef.mk name ((scope :: c.layers.map (·.scope)).find? _) = VarRef.mk name ((c.layers.map (·.scope)).find? _)
  rw [List.find?_cons, hnot]

theorem inner_variableValue? (h : st.scope scope = []) (name : QName) :
    (c.inner scope).variableValue? st name = c.variableValue? st name := by
  have hnone : st.valueOfName? scope name.written = none := by
    rw [Store.valueOfName?, h]
    rfl
  show (scope :: c.layers.map (·.scope)).findSome? _ = (c.layers.map (·.scope)).findSome? _
  rw [List.findSome?_cons, hnone]

/-- **Namespaces** are looked up through the layers, except for the node whose declarations are visible. -/
theorem inner_namespaces (hsees : c.SeesAlike st) (name : String) :
    (c.inner scope).addressOf st name = c.addressOf st name ∧
      (c.inner scope).labelOf st name = c.labelOf st name := by
  -- The layer of its own registers nothing and has no node set, so only the fallbacks are left to compare.
  have haddress : (c.inner scope).addressOf st name =
      ((c.namespaces.registeredAddress name <|> none) <|> c.contextPointer.addressOf st name) := rfl
  have hlabel : (c.inner scope).labelOf st name =
      ((c.namespaces.registeredLabel name <|> none) <|> c.contextPointer.labelOf st name) := rfl
  have haddress' : c.addressOf st name =
      ((c.namespaces.registeredAddress name <|> c.own.namespaces.node.bind (·.addressOf st name)) <|>
        if c.own.namespaces.node.isNone then c.contextPointer.addressOf st name else none) := rfl
  have hlabel' : c.labelOf st name =
      ((c.namespaces.registeredLabel name <|> c.own.namespaces.node.bind (·.labelOf st name)) <|>
        if c.own.namespaces.node.isNone then c.contextPointer.labelOf st name else none) := rfl
  rw [haddress, hlabel, haddress', hlabel']
  cases hset : c.own.namespaces.node with
  | none => exact ⟨rfl, rfl⟩
  | some p =>
    obtain ⟨haddress, hlabel⟩ := hsees p hset name
    rw [Option.bind_some, Option.bind_some, haddress, hlabel]
    constructor
    · cases c.namespaces.registeredAddress name <;> cases c.contextPointer.addressOf st name <;> rfl
    · cases c.namespaces.registeredLabel name <;> cases c.contextPointer.labelOf st name <;> rfl

end

end Context

/-! ## §B  Contexts in each other's place -/

/-- **Inherits** says of a store that what a context knows is known inside it: there are no variables in `scope` yet, and
nothing is seen from the namespace node alone. -/
structure Context.Inherits (c : Context) (scope : ScopeId) (st : Store) : Prop where
  empty : st.scope scope = []
  sees : c.SeesAlike st

/-- The coupling of contexts that know the same as long as what a context knows is known inside it. -/
def Coupling.inheriting (c : Context) (scope : ScopeId) : Coupling where
  good := c.Inherits scope
  allows st st' := c.Inherits scope st → c.Inherits scope st'
  pairs d e := d.Concur (c.Inherits scope) e
  refl _ := id
  trans h h' hst := h' (h hst)
  stays hst h := h hst
  addDocument _ _ hst := ⟨hst.empty, fun p hp => (hst.sees p hp).of_forest rfl⟩
  compile _ _ hst := ⟨hst.empty, fun p hp => (hst.sees p hp).of_forest rfl⟩
  concur := id
  setLenient h := h.setLenient true

/-- **IsHeedless** says that the functions of a host go by what the context of their call knows, however that has come to
know it, and leave it known inside of `c` what `c` knows: they declare no variables in sets that have none, nor anything
that only the namespace node sees. -/
def Host.IsHeedless (host : Host) (c : Context) : Prop := ∀ scope handle, (host handle).Concurs (.inheriting c scope)

theorem Stock.isHeedless (c : Context) : stockHost.IsHeedless c := fun _ handle => Stock.concurs handle

/-- A context that lies in another one at the same node knows what that one knows. -/
theorem Context.concur_inner {c : Context} (hroot : c.rootPointer = c.contextPointer.top) (scope : ScopeId) :
    (Coupling.inheriting c scope).pairs c (c.inner scope) where
  contextPointer := rfl
  rootPointer := hroot.symm
  isLenient := rfl
  locale := rfl
  decimalFormat? _ := rfl
  function? _ _ := rfl
  keyManager? := rfl
  identityManager? := rfl
  variableRef _ hst name := inner_variableRef hst.empty name
  variableValue? _ hst name := inner_variableValue? hst.empty name
  addressOf _ hst label := (inner_namespaces hst.sees label).1

/-! ## §C  Answers -/

/-- **Two contexts answer alike** in a store when each question gets the same answer, or the same error, from both, and
leaves the same store; that store is again one of those in which they do. -/
structure Context.AnswersAs (host : Host) (good : Store → Prop) (d c : Context) : Prop where
  getValue : ∀ st, good st → ∀ text, (d.getValue host text).runOn st = (c.getValue host text).runOn st ∧
    good ((c.getValue host text).runOn st).2
  iterate : ∀ st, good st → ∀ text, (d.iterate host text).runOn st = (c.iterate host text).runOn st ∧
    good ((c.iterate host text).runOn st).2
  getPointer : ∀ st, good st → ∀ text, (d.getPointer host text).runOn st = (c.getPointer host text).runOn st ∧
    good ((c.getPointer host text).runOn st).2
  iteratePointers : ∀ st, good st → ∀ text,
    (d.iteratePointers host text).runOn st = (c.iteratePointers host text).runOn st ∧
      good ((c.iteratePointers host text).runOn st).2
  addressOf : ∀ st, good st → ∀ label, d.addressOf st label = c.addressOf st label
  labelOf : ∀ st, good st → ∀ address, d.labelOf st address = c.labelOf st address
  function? : ∀ name arity, d.function? name arity = c.function? name arity
  locale : d.locale = c.locale
  isLenient : d.isLenient = c.isLenient
  decimalFormat? : ∀ name, d.decimalFormat? name = c.decimalFormat? name

/-- **A relative context answers as its parent.** It is made at the context node of a context whose root is above that
node, and whose namespace node, if one is set, sees the same declarations as the context node. Then all that it is asked,
as long as that is so and no variable is declared in it, it answers as that context does. -/
theorem relative_answersAs {host : Host} {c : Context} (hhost : host.IsHeedless c)
    (hroot : c.rootPointer = c.contextPointer.top) {st : Store} (hsees : c.SeesAlike st) :
    ∃ child st', (c.relative c.contextPointer).runOn st = (.ok child, st') ∧ c.Inherits child.own.scope st' ∧
      child.AnswersAs host (c.Inherits child.own.scope) c := by
  refine ⟨c.inner st.scopes.size, st.addScope.1, c.runOn_relative st, ⟨?_, fun p hp => (hsees p hp).of_forest rfl⟩, ?_⟩
  · show (st.scopes.push []).getD st.scopes.size [] = []
    simp
  have hpairs := Context.concur_inner hroot st.scopes.size
  have hconcurs : host.Concurs (.inheriting c st.scopes.size) := Host.concurs_of_actions (hhost _)
  have hrun : ∀ {α : Type} {m n : Eval α}, EvalConcur (.inheriting c st.scopes.size) m n →
      ∀ st' : Store, c.Inherits st.scopes.size st' →
        n.runOn st' = m.runOn st' ∧ c.Inherits st.scopes.size (m.runOn st').2 := fun h st' hst' =>
    (h st' hst').imp_right fun hallowed => hallowed hst'
  exact {
    getValue := fun st' hst' text => hrun (hconcurs.getValue hpairs text) st' hst'
    iterate := fun st' hst' text => hrun (hconcurs.iterate hpairs text) st' hst'
    getPointer := fun st' hst' text => hrun (hconcurs.getPointer hpairs text) st' hst'
    iteratePointers := fun st' hst' text => hrun (hconcurs.iteratePointers hpairs text) st' hst'
    addressOf := fun _ hst' label => (Context.inner_namespaces hst'.sees label).1
    labelOf := fun _ hst' address => (Context.inner_namespaces hst'.sees address).2
    function? := hpairs.function?
    locale := hpairs.locale
    isLenient := hpairs.isLenient
    decimalFormat? := hpairs.decimalFormat? }

/-- A tree whose element `r` declares the label of its child `p:c`, which has a text. -/
def declaringStore : Store where
  documents := #[]
  forest := #[.element ⟨"", [], [], [1]⟩, .element ⟨"r", [("p", "urn:p")], [], [2]⟩, .element ⟨"p:c", [], [], [3]⟩,
    .text "x"]
  scopes := #[[]]
  engine := .new {}

/-- A lenient context at that child, with a label of its own, in which the declarations of `r` are visible. -/
def labelledContext : Context :=
  let atChild : Context := ⟨Context.freshLayer (.tree ⟨2, [1, 0], .node⟩) (.tree ⟨0, [], .node⟩) 0, []⟩
  ((atChild.registerNamespace "q" "urn:q").setNamespaceNode (some (.tree ⟨1, [0], .node⟩))).setLenient true

/-- Inside that context, both labels and the leniency are known, too: the child declares nothing. -/
theorem relative_answersAs_labelled :
    ∃ child st', (labelledContext.relative labelledContext.contextPointer).runOn declaringStore = (.ok child, st') ∧
      child.AnswersAs stockHost (labelledContext.Inherits child.own.scope) labelledContext ∧
      child.addressOf st' "q" = some "urn:q" ∧ child.addressOf st' "p" = some "urn:p" ∧ child.isLenient = true := by
  have hsees : labelledContext.SeesAlike declaringStore := by
    intro p hp name
    cases hp
    exact ⟨rfl, rfl⟩
  obtain ⟨child, st', hchild, hinherits, hanswers⟩ :=
    relative_answersAs (Stock.isHeedless _) (c := labelledContext) rfl hsees
  have hafter : st' = declaringStore.addScope.1 :=
    congrArg Prod.snd (hchild.symm.trans (labelledContext.runOn_relative declaringStore))
  refine ⟨child, st', hchild, hanswers, ?_, ?_, ?_⟩
  · rw [hanswers.addressOf st' hinherits]
    rfl
  · rw [hanswers.addressOf st' hinherits, hafter]
    decide +kernel
  · rw [hanswers.isLenient]
    rfl

/-! ## §D  The namespace node -/

/-- A context at the top of that tree in which the declarations of `r` are visible. -/
def declaringContext : Context :=
  Context.setNamespaceNode ⟨Context.freshLayer (.tree ⟨0, [], .node⟩) (.tree ⟨0, [], .node⟩) 0, []⟩
    (some (.tree ⟨1, [0], .node⟩))

/-- **The namespace node is not inherited.** A label that the parent knows from the node that was set there means
nothing to a relative context at the same node, and a path with that label finds its node in the parent only. -/
theorem relative_loses_namespaceNode :
    declaringContext.rootPointer = declaringContext.contextPointer.top ∧
      ∃ child st', (declaringContext.relative declaringContext.contextPointer).runOn declaringStore =
          (.ok child, st') ∧
        declaringContext.addressOf st' "p" = some "urn:p" ∧ child.addressOf st' "p" = none ∧
        declaringContext.labelOf st' "urn:p" = some "p" ∧ child.labelOf st' "urn:p" = none ∧
        ((declaringContext.getValue stockHost "r/p:c").runOn st').1.isOk = true ∧
        ((child.getValue stockHost "r/p:c").runOn st').1.isOk = false := by
  refine ⟨rfl, declaringContext.inner 1, declaringStore.addScope.1, rfl, ?_, ?_, ?_, ?_, ?_, ?_⟩
  · decide +kernel
  · decide +kernel
  · decide +kernel
  · decide +kernel
  · decide +kernel
  · decide +kernel

end NodePath
