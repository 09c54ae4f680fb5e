/-
# NodePath.Proofs.VariableWriting — writes through a variable

A variable that holds an object has a document of its own, and opens onto it whenever it is needed as a node. So a path
from the variable is created in that document, and read in it: what is written is read back. A variable that holds a
plain value, be it null, opens onto a copy, a new document each time. What is created in the copy is lost with it.

* §A  Documents of variables.
* §B  Paths from a variable.
* §C  What is written is read.
* §D  What is written into a copy is lost.
-/
import NodePath.Proofs.MadePath
import NodePath.Proofs.VariableValue

namespace NodePath

variable {c : Context} {host : Host} {s : Setting} {name : QName} {v : VarRef} {d : DocId} {j : Json} {st st' st₁ : Store}
  {p : Pointer} {text : String} {step : Step} {steps : List Step}

/-! ## §A  Documents of variables -/

theorem Store.Extends.variableRef (h : st.Extends st₁) (c : Context) (name : QName) :
    c.variableRef st₁ name = c.variableRef st name := by
  simp only [Context.variableRef, Store.scope, h.scopes]

/-- The top of the document that a variable opens onto. -/
def VarRef.top (v : VarRef) (d : DocId) : JsonRef := .root d (some v) v.name

/-- **Shares** says that the nearest declaration of a name that a context knows is the variable `v`, which holds the
document `j`, and that documents can be made nodes. -/
structure Context.Shares (c : Context) (name : QName) (v : VarRef) (d : DocId) (j : Json) (st : Store) : Prop where
  nearest : c.variableRef st name = v
  held : st.slot? v = some (.document d)
  opens : st.engine.opensDocuments = true
  document : st.document? d = some j

namespace Context.Shares

theorem size (h : c.Shares name v d j st) : d < st.documents.size :=
  (Array.getElem?_eq_some_iff.mp h.document).1

theorem opening (h : c.Shares name v d j st) : (Pointer.var v).opening st = .onDocument d := by
  simp only [Pointer.opening, h.held, h.opens, if_true]

theorem follow (h : c.Shares name v d j st) : (Pointer.var v).follow st = .var v := by
  simp [Pointer.follow, Pointer.followFrom, h.opening]

/-- **A variable that holds a document is opened to it**, and no document is made for that. -/
theorem runOn_opened (h : c.Shares name v d j st) : (Pointer.var v).opened.runOn st = (.ok (.json (v.top d)), st) := by
  simp only [Pointer.opened, Eval.runOn_bind, Eval.runOn_get, h.follow, h.opening]
  rfl

/-- A variable is no node-set, unless it holds an array. -/
theorem members? (h : c.Shares name v d j st) (harray : j.isArray = false) : (Pointer.var v).members? st = none := by
  have hvalue : (Pointer.var v).openedValue st = .ofJson j := by
    simp only [Pointer.openedValue, h.follow, h.opening, h.document, Option.map_some, Option.getD_some]
  rw [Pointer.members?, hvalue]
  cases j with
  | array items => cases harray
  | _ => rfl

/-- What is kept beside the documents does not matter, -/
theorem grow (h : c.Shares name v d j st) (hst : st.Extends st₁) : c.Shares name v d j st₁ where
  nearest := (hst.variableRef c name).trans h.nearest
  held := (hst.slot? v).trans h.held
  opens := hst.opensDocuments.trans h.opens
  document := (hst.document? h.size).trans h.document

/-- and a change of the document is one of what the variable holds. -/
theorem setDocument (h : c.Shares name v d j st) (j' : Json) : c.Shares name v d j' (st.setDocument d j') where
  nearest := h.nearest
  held := h.held
  opens := h.opens
  document := Store.document?_setDocument h.size j'

end Context.Shares

/-! ## §B  Paths from a variable -/

/-- The cursor of a path from a variable starts at its nearest declaration. -/
theorem Setting.runOn_filterPath_variable (hv : s.context.variableRef st name = v) (around : Surroundings) (depth : Nat)
    (m : Motion) (cur : Cursor) (steps : List Step) :
    ((s.evaluatorTo around (depth + 1)).filterPath m (.var name) [] steps).runOn cur st =
      (.ok (.ofPath st (.var v) steps), cur, st) := by
  have hcontext : (s.evaluatorTo around depth).context = s.context := by
    rw [Evaluator.context, Setting.evaluatorTo_setting]
  have hlazy : ((s.evaluatorTo around (depth + 1)).lazy m (.var name)).runOn cur st = (.ok (.pointer (.var v)), cur, st) := by
    show (Walk.store >>= fun st => pure (Value.pointer (.var ((s.evaluatorTo around depth).context.variableRef st name)))).runOn
      cur st = _
    rw [Walk.runOn_bind, Walk.runOn_store, hcontext, ← hv]
    rfl
  rw [Evaluator.filterPath, Walk.runOn_bind, hlazy]
  rfl

/-- The value of the path is the first node of that cursor. -/
theorem Setting.runOn_glanceValue_variable (hv : s.context.variableRef st name = v) {p? : Option Pointer}
    (hfirst : ((s.evaluator (.filter (.var name) [] steps)).first (.ofPath st (.var v) steps)).runOn st = (.ok p?, st')) :
    (s.glanceValue (.filter (.var name) [] steps)).runOn st = (.ok (Call.ofNode p?), st') := by
  obtain ⟨depth, hdepth⟩ : ∃ depth, (Expr.filter (.var name) [] steps).size = depth + 2 :=
    ⟨Expr.sizeSteps steps, by simp only [Expr.size, Expr.sizeAll]; omega⟩
  refine Setting.runOn_glanceValue (c := .startAt st s.context.contextPointer) fun around => ?_
  rw [Setting.evaluator, hdepth] at hfirst ⊢
  exact Evaluator.runOn_firstNode (s.runOn_filterPath_variable hv _ _ _ _ _) hfirst

/-- **What plain steps from a variable lead to** has the value that is read. -/
theorem Context.Shares.getValue_of_leadsTo {path : List Segment} {target : Json} (h : c.Shares name v d j st)
    (hc : c.Settled host st) (hroot : IsDocument st (.json (v.top d))) (harray : j.isArray = false)
    (htext : Expr.parse text = .ok (.filter (.var name) [] (step :: steps)))
    (hplain : ∀ step' ∈ step :: steps, step'.IsPlain) (hway : j.LeadsTo (step :: steps) path)
    (htarget : j.at? path = some target) : ((c.getValue host text).runOn st).1 = .ok (.ofJson target) := by
  have hmem : Pointer.json (v.top d) ∈ (Pointer.json (v.top d)).listing st :=
    hroot.rooted.1.mem_listing.mpr ⟨_, .root, .inl rfl⟩
  have hat : st.at? (v.top d).doc (v.top d).path = some j := Store.at?_of_document? h.document rfl
  have hwalk : (c.surroundings host).CanWalk st (step :: steps) [.json (v.top d)] :=
    hroot.canWalk hplain (hroot.spread_singleton hmem)
  have hopens : Realm.Opens st (· ∈ (Pointer.json (v.top d)).listing st) (.var v) (.json (v.top d)) :=
    ⟨hmem, fun hst => (h.grow hst).runOn_opened⟩
  obtain ⟨sets, hsucceeds, hsets⟩ :=
    hroot.succeeds_of_opens hc.grounded (fun _ _ => .var v) (h.members? harray) hopens hwalk
  -- The text is compiled first; the cursor does not depend on that.
  have hcompiled : st.Extends (st.compiled text) := (Store.Extends.refl hc.sound).compile text
  have hcursor : Cursor.ofPath (st.compiled text) (.var v) (step :: steps) = .ofPath st (.var v) (step :: steps) := by
    rw [Cursor.ofPath, Cursor.ofPath, Cursor.startAt, Cursor.startAt, h.members? harray, (h.grow hcompiled).members? harray]
  obtain ⟨st₂, hfirst, hst₂⟩ := hsucceeds.runOn_first (.filter (.var name) [] (step :: steps)) hcompiled
  have hnode : sets.flatten.head? = some (.json ((v.top d).below path false)) :=
    hsets ▸ hroot.head?_eager c host hway hmem rfl hat
  rw [hnode, ← hcursor] at hfirst
  have hglance := Setting.runOn_glanceValue_variable (s := c.setting host) (h.grow hcompiled).nearest hfirst
  have hfound : Pointer.json ((v.top d).below path false) ∈ (Pointer.json (v.top d)).listing st :=
    hroot.mem_of_mem_eager hc.grounded hmem (List.mem_of_mem_head? (hsets ▸ hnode))
  obtain ⟨-, hactual, hvalue⟩ := hroot.opened hfound hst₂
  rw [Context.getValue, Reading.runOn_withText hc.sound htext, Setting.runOn_readValue_node hglance hactual, hvalue,
    JsonRef.openedValue_below hat htarget]
  rfl

/-- **A path from a variable that is created** is created from what the variable is opened to. -/
theorem Setting.runOn_create_variable {r : JsonRef} (hv : s.context.variableRef st name = v)
    (hactual : (Pointer.var v).isActual st = true) (hopened : (Pointer.var v).opened.runOn st = (.ok (.json r), st₁))
    (hplain : ∀ step' ∈ step :: steps, step'.IsPlain) :
    (s.create text (.filter (.var name) [] (step :: steps))).runOn st =
      (s.createSteps (.json r) (step :: steps)).runOn st₁ := by
  have hsimple : (Expr.filter (.var name) [] (step :: steps)).isSimplePath = true :=
    List.all_eq_true.mpr fun step' hstep => (hplain step' hstep).isSimple
  have hdeclared : (s.declaredVariable name).runOn st = (.ok (.var v), st) := by
    rw [declaredVariable, Eval.runOn_bind, Eval.runOn_get]
    dsimp only
    rw [hv, if_pos hactual, Eval.runOn_pure]
  have hself : (Pointer.json r).opened.runOn st₁ = (.ok (.json r), st₁) := rfl
  rw [create_filter hsimple, Eval.runOn_bind, hdeclared]
  dsimp only
  rw [createSteps, createSteps, Eval.runOn_bind, Eval.runOn_bind, hopened, hself]

/-! ## §C  Documents -/

/-- **What is written through a variable is read back.** When a path of plain steps from a variable that holds a document
can be created and given a plain value, it is read as that value. If a key of the document has a colon, no step may ask for
another child than the first one. -/
theorem createPathAndSetValue_isRead {w : Datum} (hc : c.Settled host st) (hshares : c.Shares name v d j st)
    (harray : j.isArray = false) (hkeys : j.keysApart = true)
    (hcounts : j.everyObject Json.Members.colonFree = true ∨ ∀ step ∈ steps, step.predicates = [])
    (htext : Expr.parse text = .ok (.filter (.var name) [] steps)) (hne : steps ≠ [])
    (hplain : ∀ step ∈ steps, step.IsPlain) (hw : w.IsPlain)
    (hrun : (c.createPathAndSetValue host text w).runOn st = (.ok p, st'))
    (hnarrow : ((Pointer.json (v.top d)).listing st').length ≤ Number.exactBound) :
    ∃ w', ((c.getValue host text).runOn st').1 = .ok w' ∧ w'.SameAs w := by
  obtain ⟨step, steps, rfl⟩ := List.exists_cons_of_ne_nil hne
  have hcompiled : st.Extends (st.compiled text) := (Store.Extends.refl hc.sound).compile text
  have hshares₀ := hshares.grow hcompiled
  have hactual : (Pointer.var v).isActual (st.compiled text) = true := Option.isSome_of_eq_some hshares₀.held
  obtain ⟨st₁, hmade, hset⟩ := hc.of_createAndSet htext hrun
  rw [Setting.runOn_create_variable hshares₀.nearest hactual hshares₀.runOn_opened hplain] at hmade
  obtain ⟨j', path, j'', target, -, rfl, hj', hway, hkeys', harray', htarget, hsame⟩ :=
    Setting.leadsTo_of_setValue rfl hshares₀.document rfl hkeys hcounts hplain hw hmade hset
  -- The steps start at the top, so what they leave there is the whole document.
  cases hj'
  have hshares' : c.Shares name v d j' ((st.compiled text).setDocument d j') := hshares₀.setDocument j'
  have hroot : IsDocument ((st.compiled text).setDocument d j') (.json (v.top d)) :=
    ⟨⟨d, some v, v.name, j', rfl, hshares'.document, hkeys'⟩, hnarrow⟩
  have hnone : j'.isArray = false := by
    by_contra hsome
    rw [harray' (by simpa using hsome)] at harray
    cases harray
  exact ⟨_, hshares'.getValue_of_leadsTo ((hc.grow hcompiled).setDocument d j') hroot hnone htext hplain hway htarget,
    hsame⟩

/-- With one variable that holds a document, the context at the top is settled. -/
theorem Context.settled_declaring (j held : Json) (name : String) :
    Context.atTop.Settled stockHost (.declaring j name (.object held)) where
  host := Stock.pure
  within := ⟨Nat.two_pos, Nat.two_pos, fun _ hp => by cases hp⟩
  closed := by
    intro v slot h
    obtain ⟨scope, -, h⟩ := Option.bind_eq_some_iff.mp h
    obtain ⟨m, hm, rfl⟩ := Option.map_eq_some_iff.mp h
    have hmem : m ∈ (Store.declaring j name (.object held)).scope scope := List.mem_of_find?_eq_some hm
    cases scope with
    | zero =>
      obtain rfl := List.mem_singleton.mp hmem
      exact Nat.one_lt_two
    | succ scope => cases hmem
  sound _ he := by cases he

/-- An object with an object in it. -/
def heldObject : Json := .object [("a", .object [("x:b", .int 1)])]

/-- A member that is made in the inner one. -/
theorem createPathAndSetValue_isRead_member :
    let st := Store.declaring (.object []) "v" (.object heldObject)
    ∃ p st', (Context.atTop.createPathAndSetValue stockHost "$v/a/c" (.text "x")).runOn st = (.ok p, st') ∧
      p.pathText st' = "$v/a/c" ∧ ((Context.atTop.getValue stockHost "$v/a/c").runOn st').1 = .ok (.text "x") := by
  intro st
  have htext : Expr.parse "$v/a/c" = .ok (.filter (.var (.plain "v")) []
      [⟨.child, .name (.plain "a"), []⟩, ⟨.child, .name (.plain "c"), []⟩]) := by decide +kernel
  have hplain : ∀ step ∈ ([⟨.child, .name (.plain "a"), []⟩, ⟨.child, .name (.plain "c"), []⟩] : List Step),
      step.IsPlain :=
    List.forall_mem_cons.mpr ⟨.child (.letter (a := 'a') (by decide)) .first,
      List.forall_mem_singleton.mpr (.child (.letter (a := 'c') (by decide)) .first)⟩
  have hshares : Context.atTop.Shares (.plain "v") ⟨.plain "v", some 0⟩ 1 heldObject st :=
    ⟨rfl, rfl, by decide +kernel, rfl⟩
  have hpath : ((Context.atTop.createPathAndSetValue stockHost "$v/a/c" (.text "x")).runOn st).1.toOption.map
      (·.pathText ((Context.atTop.createPathAndSetValue stockHost "$v/a/c" (.text "x")).runOn st).2) =
        some "$v/a/c" := by decide +kernel
  have hnarrow : ((Pointer.json (VarRef.top ⟨.plain "v", some 0⟩ 1)).listing ((Context.atTop.createPathAndSetValue
      stockHost "$v/a/c" (.text "x")).runOn st).2).length ≤ Number.exactBound := by decide +kernel
  rcases hrun : (Context.atTop.createPathAndSetValue stockHost "$v/a/c" (.text "x")).runOn st with ⟨e | p, st'⟩
  · rw [hrun] at hpath
    cases hpath
  · rw [hrun] at hpath hnarrow
    obtain ⟨w, hread, hsame⟩ := createPathAndSetValue_isRead (Context.settled_declaring _ _ _) hshares rfl
      (by decide +kernel) (.inr (by decide)) htext (List.cons_ne_nil _ _) hplain (.text "x") hrun hnarrow
    obtain rfl : w = .text "x" := by cases w <;> exact hsame
    exact ⟨p, st', rfl, Option.some.inj hpath, hread⟩

/-! ## §D  Copies -/

/-- A document that was put in may be changed. -/
theorem Store.Extends.setNew (h : st.Extends st₁) (hd : st.documents.size ≤ d) (j : Json) :
    st.Extends (st₁.setDocument d j) where
  documents e he := by
    rw [← h.documents e he]
    exact Array.getElem?_setIfInBounds_ne (by omega)
  size_le := by
    rw [Store.size_setDocument]
    exact h.size_le
  forest := h.forest
  scopes := h.scopes
  registry := h.registry
  sound := h.sound

namespace Context.Declares

variable {scope : ScopeId} {u : Datum}

theorem grow (h : c.Declares name scope u st) (hst : st.Extends st₁) : c.Declares name scope u st₁ where
  nearest := (hst.variableRef c name).trans h.nearest
  held := by
    rw [Store.scope, hst.scopes]
    exact h.held
  opens := hst.opensDocuments.trans h.opens

/-- **A variable that holds a scalar is opened to a copy of it**, a new document. -/
theorem runOn_opened (h : c.Declares name scope u st) (hu : u.isScalar = true) :
    (Pointer.var ⟨name, some scope⟩).opened.runOn st =
      (.ok (.json (VarRef.top ⟨name, some scope⟩ st.documents.size)), (st.addDocument u.scalarJson).1) := by
  simp only [Pointer.opened, Eval.runOn_bind, Eval.runOn_get, h.follow hu, h.opening hu]
  rfl

end Context.Declares

/-- What is read in a store is read in every store that extends it, unless it is a node. -/
theorem Context.Settled.getValue_eq (hc : c.Settled host st) (hst : st.Extends st') (text : String)
    (hvalue : ∀ q, ((c.getValue host text).runOn st).1 ≠ .ok (.pointer q)) :
    ((c.getValue host text).runOn st').1 = ((c.getValue host text).runOn st).1 := by
  have hnatural : EvalAlike (World.only st hc.closed) .datum (c.getValue host text) (c.getValue host text) :=
    Reading.withText_alike text fun _ e hw => ((hc.within.setting hc.host).grow hw).readValue text e
  obtain ⟨w, -, -, halike⟩ := hnatural _ (.refl _) _ _ (World.holds_only (.refl hc.sound) hst)
  generalize ((c.getValue host text).runOn st).1 = before at halike hvalue ⊢
  generalize ((c.getValue host text).runOn st').1 = after at halike
  cases halike with
  | error e => rfl
  | ok hd =>
    cases hd with
    | pointer hq => exact absurd rfl (hvalue _)
    | _ => rfl

/-- A scalar as a document has no keys. -/
theorem Datum.scalarJson_plain {u : Datum} (hu : u.isScalar = true) :
    u.scalarJson.keysApart = true ∧ u.scalarJson.everyObject Json.Members.colonFree = true := by
  cases u with
  | number x =>
    show (Json.ofFloat x).keysApart = true ∧ (Json.ofFloat x).everyObject Json.Members.colonFree = true
    unfold Json.ofFloat
    split
    · exact ⟨rfl, rfl⟩
    · dsimp only
      split <;> exact ⟨rfl, rfl⟩
  | object j => cases hu
  | pointer q => cases hu
  | _ => exact ⟨rfl, rfl⟩

/-- **What is written into a copy is lost.** When a path of plain steps from a variable that holds a scalar, null among
them, can be created and given a plain value, that is done in a document of its own, and everything is read as before. -/
theorem createPathAndSetValue_isLost {scope : ScopeId} {u w : Datum} (hc : c.Settled host st)
    (hdeclares : c.Declares name scope u st) (hu : u.isScalar = true)
    (htext : Expr.parse text = .ok (.filter (.var name) [] steps)) (hne : steps ≠ [])
    (hplain : ∀ step ∈ steps, step.IsPlain) (hw : w.IsPlain)
    (hrun : (c.createPathAndSetValue host text w).runOn st = (.ok p, st')) :
    st.Extends st' ∧ ∀ other, (∀ q, ((c.getValue host other).runOn st).1 ≠ .ok (.pointer q)) →
      ((c.getValue host other).runOn st').1 = ((c.getValue host other).runOn st).1 := by
  obtain ⟨step, steps, rfl⟩ := List.exists_cons_of_ne_nil hne
  have hcompiled : st.Extends (st.compiled text) := (Store.Extends.refl hc.sound).compile text
  have hdeclares₀ : c.Declares name scope u (st.compiled text) := hdeclares.grow hcompiled
  have hactual : (Pointer.var ⟨name, some scope⟩).isActual (st.compiled text) = true :=
    Option.isSome_of_eq_some hdeclares₀.held
  obtain ⟨st₁, hmade, hset⟩ := hc.of_createAndSet htext hrun
  rw [Setting.runOn_create_variable hdeclares₀.nearest hactual (hdeclares₀.runOn_opened hu) hplain] at hmade
  have hcopy : ((st.compiled text).addDocument u.scalarJson).1.document? (st.compiled text).documents.size =
      some u.scalarJson := by simp [Store.document?, Store.addDocument]
  obtain ⟨hkeys, hcolons⟩ := Datum.scalarJson_plain hu
  obtain ⟨-, -, j', -, -, rfl, -⟩ :=
    Setting.leadsTo_of_setValue rfl hcopy rfl hkeys (.inl hcolons) hplain hw hmade hset
  have hst' := (hcompiled.addDocument u.scalarJson).setNew hcompiled.size_le j'
  exact ⟨hst', fun other => hc.getValue_eq hst' other⟩

/-- **What is created below null is lost**, though the path has been made, and its node has been given the value. -/
theorem createPathAndSetValue_isLost_null :
    let st := Store.declaring (.object []) "v" .null
    let made := (Context.atTop.createPathAndSetValue stockHost "$v/a" (.text "x")).runOn st
    made.1.toOption.map (·.pathText made.2) = some "$v/a" ∧
      ((Context.atTop.getValue stockHost "$v/a").runOn made.2).1.map (fun _ => ()) = .error (.notFound "$v/a") := by
  decide +kernel

end NodePath
