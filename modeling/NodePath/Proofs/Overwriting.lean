/-
# NodePath.Proofs.Overwriting — what a value is put in the place of

A path that is created and given a value follows the nodes that are there. As long as it does, no document changes; from
the first node on that has to be made, everything lies at or below a place that was free, and whatever is put there, the
document still contains what it was. So a value is overwritten only when all steps lead to nodes that were there.

Children are looked for where they are made. Attributes are not: a member that is an array is no attribute, but it is
found by its key when the attribute is made. The same goes for a position behind an attribute, and for what is below one.

* §A  `Json.Spare`: places that are free.
* §B  Steps from a free place.
* §C  Steps from a node that is there.
* §D  Giving the last node a value.
* §E  Attributes out of view.
-/
import NodePath.Proofs.Making
import NodePath.Proofs.ParsedTree

namespace NodePath

/-! ## §A  Free places -/

namespace Json

/-- **Spare** says of a place that whatever is put there, the document contains what it was before. -/
def Spare (before j : Json) (path : List Segment) : Prop :=
  ∀ v j', Json.replace? v path j = some j' → j'.Contains before

variable {before j j' part w : Json} {path more : List Segment}

/-- What is below a free place is free. -/
theorem Spare.append (h : before.Spare j path) (more : List Segment) : before.Spare j (path ++ more) := by
  intro v j' hj'
  rw [replace?_append] at hj'
  obtain ⟨part, -, hj'⟩ := Option.bind_eq_some_iff.mp hj'
  obtain ⟨part', -, hj'⟩ := Option.bind_eq_some_iff.mp hj'
  exact h part' j' hj'

/-- A place stays free when something is put there. -/
theorem Spare.replace? (h : before.Spare j path) (hj' : Json.replace? w path j = some j') : before.Spare j' path := by
  intro v j'' hj''
  rw [replace?_replace? hj'] at hj''
  exact h v j'' hj''

/-- **What has been made is free** when it is free in the part that it has been made in. -/
theorem spare_of_replace? (hpart : j.at? path = some part) (hj' : Json.replace? w path j = some j')
    (h : ∀ v w', Json.replace? v more w = some w' → w'.Contains part) : j.Spare j' (path ++ more) := by
  intro v j'' hj''
  rw [replace?_append, at?_replace? hj', Option.bind_some] at hj''
  obtain ⟨w', hw', hj''⟩ := Option.bind_eq_some_iff.mp hj''
  rw [replace?_replace? hj'] at hj''
  exact .replace? hpart (h v w' hw') hj''

end Json

/-- **SpareAt** says that a node lies at a free place of a document. -/
def Store.SpareAt (st : Store) (d : DocId) (before : Json) (p : Pointer) : Prop :=
  ∃ r j, p = .json r ∧ r.doc = d ∧ st.document? d = some j ∧ before.Spare j r.path

variable {c : Context} {host : Host} {s : Setting} {st st₁ st' : Store} {root p q : Pointer} {d : DocId} {j : Json}
  {r r' : JsonRef} {step : Step} {steps : List Step} {index : Option Nat} {i : Nat} {name : QName}

namespace Store.SpareAt

theorem grow (h : st.SpareAt d j p) (hst : st.Extends st₁) : st₁.SpareAt d j p := by
  obtain ⟨r, j', rfl, hd, hj', hspare⟩ := h
  have hsize : d < st.documents.size := (Array.getElem?_eq_some_iff.mp hj').1
  exact ⟨r, j', rfl, hd, (hst.document? hsize).trans hj', hspare⟩

/-- A place below. -/
theorem below (h : st.SpareAt d j (.json r)) (more : List Segment) (asAttribute : Bool) :
    st.SpareAt d j (.json (r.below more asAttribute)) := by
  obtain ⟨_, j', hr, hd, hj', hspare⟩ := h
  cases hr
  exact ⟨_, j', rfl, hd, hj', hspare.append more⟩

/-- What has been changed there, and where that leads. -/
theorem setDocument (h : st.SpareAt d j (.json r)) {w j' : Json}
    (hj' : Json.replace? w r.path ((st.document? r.doc).getD .null) = some j') :
    (st.setDocument r.doc j').SpareAt d j (.json r) := by
  obtain ⟨_, j₁, hr, rfl, hj₁, hspare⟩ := h
  cases hr
  rw [hj₁, Option.getD_some] at hj'
  have hsize : r.doc < st.documents.size := (Array.getElem?_eq_some_iff.mp hj₁).1
  exact ⟨r, j', rfl, rfl, Store.document?_setDocument hsize j', hspare.replace? hj'⟩

/-! ## §B  From a free place -/

/-- **One step from a free place** leads to one. -/
theorem makes (h : st.SpareAt d j (.json r)) (hmakes : s.Makes st r index step p st') : st'.SpareAt d j p := by
  cases hmakes with
  | stay => exact h
  | child hp =>
    obtain ⟨more, rfl⟩ := Pointer.below_of_mem_children (Setting.mem_of_named? hp)
    exact h.below more false
  | newChild _ hmade =>
    obtain ⟨part, ms, -, -, hj', rfl⟩ := JsonRef.of_createChild hmade
    exact (h.setDocument hj').below _ _
  | attr hp =>
    obtain ⟨more, rfl⟩ := Pointer.below_of_mem_attributes (Setting.mem_of_named? hp)
    exact h.below more true
  | newAttr _ hmade =>
    obtain ⟨part, ms, -, -, hj', rfl⟩ := JsonRef.of_createAttribute hmade
    exact (h.setDocument hj').below _ _

/-- **All steps from a free place** lead to one, by induction on how many they are. -/
theorem createSteps (h : st.SpareAt d j p) (hc : c.Settled host st) (hsimple : ∀ step ∈ steps, step.isSimple = true)
    (hrun : ((c.setting host).createSteps p steps).runOn st = (.ok q, st')) : st'.SpareAt d j q := by
  induction steps generalizing p st with
  | nil =>
    cases hrun
    exact h
  | cons step steps ih =>
    obtain ⟨hstep, hsteps⟩ := List.forall_mem_cons.mp hsimple
    obtain ⟨r, rfl⟩ : ∃ r, p = .json r := h.imp fun _ ⟨_, hp, _⟩ => hp
    obtain ⟨index, st₁, q', st₂, hindex, hmakes, hrest⟩ := Setting.of_createSteps_cons hstep hrun
    have hst₁ := hc.runOn_index hindex
    have hc₁ := hc.grow hst₁
    exact ih ((h.grow hst₁).makes hmakes) (hc₁.makes hmakes) hsteps hrest

end Store.SpareAt

/-! ## §C  From a node that is there -/

/-- **InView** says of steps that they ask for no attribute that is out of view in a document: an attribute is only
asked for last, without a position, and by a key under which no object has an array. -/
def InView (j : Json) : List Step → Prop
  | [] => True
  | step :: steps => (step.axis = .attributes → steps = [] ∧ step.predicates = [] ∧ ∀ name, step.test = .name name →
      j.everyObject (fun ms => !(ms.get? name.written).any Json.isArray) = true) ∧ InView j steps

/-- **What a step finds** is what it leads to: its predicate, which does not depend on the context, is evaluated to the
number that it is judged to be. -/
theorem Context.Settled.mem_stepFrom (hc : c.Settled host st) (hst₁ : st.Extends st₁) (hst : st.Extends st')
    {axis : Axis} {test : NodeTest} {es : List Expr} (hes : es.length ≤ 1)
    (hindependent : ∀ e ∈ es, e.isContextDependent = false) {rs : List JsonRef}
    (hnodes : axis.nodes (.json r) st = rs.map .json) (hlen : rs.length ≤ Number.exactBound)
    (hindex : ((c.setting host).index ⟨axis, test, es⟩).runOn st₁ = (.ok index, st'))
    (hnamed : (c.setting host).named? st' test (index.getD 0) (rs.map .json) = some p) :
    p ∈ (c.surroundings host).stepFrom st ⟨axis, test, es⟩ (.json r) := by
  rw [hc.named?_eq hst, ← hnodes] at hnamed
  have halong : (c.surroundings host).along st axis test (.json r) =
      (axis.nodes (.json r) st).filter ((c.surroundings host).passes st test) := rfl
  rw [← halong] at hnamed
  match es, hes with
  | [], _ => exact List.mem_of_getElem? hnamed
  | [e], _ =>
    obtain ⟨x, hvalue, hposition, rfl⟩ := Setting.of_runOn_index hindex
    have hjudged := hc.judge_number hst₁ (hindependent e List.mem_cons_self) hvalue
    have hlength : ((c.surroundings host).along st axis test (.json r)).length ≤ Number.exactBound := by
      refine Nat.le_trans (List.length_filter_le _ _) ?_
      rwa [hnodes, List.length_map]
    have hkeep : (c.surroundings host).keep st e ((c.surroundings host).along st axis test (.json r)) = _ :=
      keep_of_number hlength fun i => Surroundings.selects_number (hjudged _ i)
    rw [Bool.and_comm] at hposition
    rw [if_pos hposition] at hkeep
    show p ∈ (c.surroundings host).keep st e _
    rw [hkeep, Option.mem_toList]
    exact hnamed

/-- **A new child** of an element is at a free place. -/
theorem spareAt_newChild (hr : r.asAttribute = false) (hj : st.document? r.doc = some j) (hname : name.WellFormed)
    (hnone : s.named? st (.name name) i ((Pointer.json r).children st) = none) {j' : Json}
    (hmade : r.createChild name i j = .ok (j', r')) : (st.setDocument r.doc j').SpareAt r.doc j (.json r') := by
  obtain ⟨part, ms, hpart, hmembers, hj', rfl⟩ := JsonRef.of_createChild hmade
  have hsize : r.doc < st.documents.size := (Array.getElem?_eq_some_iff.mp hj).1
  refine ⟨_, j', rfl, rfl, Store.document?_setDocument hsize j', Json.spare_of_replace? hpart hj' fun v w hw => ?_⟩
  rcases hmembers with ⟨rfl, rfl⟩ | rfl
  · exact .null
  · have hat : st.at? r.doc r.path = some (.object ms) := Store.at?_of_document? hj hpart
    exact JsonRef.contains_of_new_slot (JsonRef.slot_missing hr hname hat hnone) hw

/-- **A new attribute** is, when its key holds no array. -/
theorem spareAt_newAttr (hr : r.asAttribute = false) (hj : st.document? r.doc = some j) (hname : name.WellFormed)
    (hview : j.everyObject (fun ms => !(ms.get? name.written).any Json.isArray) = true)
    (hnone : s.named? st (.name name) 0 ((Pointer.json r).attributes st) = none) {j' : Json}
    (hmade : r.createAttribute name j = .ok (j', r')) : (st.setDocument r.doc j').SpareAt r.doc j (.json r') := by
  obtain ⟨part, ms, hpart, hmembers, hj', rfl⟩ := JsonRef.of_createAttribute hmade
  have hsize : r.doc < st.documents.size := (Array.getElem?_eq_some_iff.mp hj).1
  refine ⟨_, j', rfl, rfl, Store.document?_setDocument hsize j', Json.spare_of_replace? hpart hj' fun v w hw => ?_⟩
  rcases hmembers with ⟨rfl, rfl⟩ | rfl
  · exact .null
  · have hget : Json.Members.get? ms name.written = none := by
      by_contra hsome
      obtain ⟨old, hold⟩ := Option.ne_none_iff_exists'.mp hsome
      have hshown : old.isArray = false := by
        have hobject := (Json.everyObject_object.mp (Json.everyObject_at? hview hpart)).1
        simpa [hold] using hobject
      -- The member is an attribute that the name finds.
      have hat : st.at? r.doc r.path = some (.object ms) := Store.at?_of_document? hj hpart
      have hmem : [Segment.key name.written] ∈ JsonRef.attributePaths (.object ms) :=
        List.mem_map.mpr ⟨_, List.mem_filter.mpr ⟨Json.Members.mem_of_get? hold, by simp [hshown]⟩, rfl⟩
      have hfound : Pointer.json (r.below [.key name.written] true) ∈ ((Pointer.json r).attributes st).filter
          ((NodeTest.name name).accepts (s.context.addressOf st) · st) := by
        refine List.mem_filter.mpr ⟨?_, JsonRef.accepts_written hname (.inl rfl) true⟩
        rw [JsonRef.attributes_of_at? hr hat]
        exact List.mem_map.mpr ⟨_, List.mem_map.mpr ⟨_, hmem, rfl⟩, rfl⟩
      exact absurd (List.length_pos_of_mem hfound) (Nat.not_lt.mpr (List.getElem?_eq_none_iff.mp hnone))
    have hmember : JsonRef.withMember ms name.written = Json.Members.set name.written .null ms := by
      rw [JsonRef.withMember, hget]
      rfl
    rw [hmember, Json.replace?_cons, Json.child?, Json.Members.get?_set, Option.bind_some, Json.replace?,
      Option.bind_some, Json.setChild?, Json.Members.get?_set, Option.isSome_some, if_pos rfl,
      Json.Members.set_set] at hw
    cases hw
    exact .set_of_none hget v

/-- Nodes that are reached from fewer nodes are reached from more. -/
theorem Surroundings.mem_eager_of_subset {around : Surroundings} {steps : List Step} {nodes nodes' : List Pointer}
    (hnodes : ∀ q ∈ nodes, q ∈ nodes') (hp : p ∈ around.eager st steps nodes) : p ∈ around.eager st steps nodes' := by
  induction steps generalizing nodes nodes' with
  | nil => exact hnodes p hp
  | cons step steps ih =>
    refine ih (fun q hq => ?_) hp
    obtain ⟨o, ho, hq⟩ := List.mem_flatMap.mp hq
    exact List.mem_flatMap.mpr ⟨o, hnodes o ho, hq⟩

/-- What is reached from a node of a step is reached from where the step starts. -/
theorem Surroundings.mem_eager_cons {around : Surroundings} {o : Pointer} (hq : q ∈ around.stepFrom st step o)
    (hp : p ∈ around.eager st steps [q]) : p ∈ around.eager st (step :: steps) [o] := by
  have hsubset : ∀ q' ∈ [q], q' ∈ [o].flatMap (around.stepFrom st step) := by
    intro q' hq'
    obtain rfl := List.mem_singleton.mp hq'
    exact List.mem_flatMap.mpr ⟨o, List.mem_singleton.mpr rfl, hq⟩
  have hall : p ∈ around.eager st steps ([o].flatMap (around.stepFrom st step)) :=
    Surroundings.mem_eager_of_subset hsubset hp
  exact hall

/-- A simple step that stays asks for any node. -/
theorem StepOf.of_isSimple_self {test : NodeTest} {es : List Expr} (hsimple : StepOf.isSimple ⟨.self, test, es⟩ = true) :
    test = .type .node ∧ es = [] := by
  cases test with
  | type t =>
    cases t with
    | node =>
      have hempty : es.isEmpty = true := by
        simp only [StepOf.isSimple, Bool.and_eq_true] at hsimple
        exact hsimple.1.1
      exact ⟨rfl, List.isEmpty_iff.mp hempty⟩
    | _ => cases hsimple
  | _ => cases hsimple

/-- The name of a simple step can be written: it is no star. -/
theorem QName.wellFormed_of_isSimple {axis : Axis} {es : List Expr}
    (hsimple : StepOf.isSimple ⟨axis, .name name, es⟩ = true) (hwf : (NodeTest.name name).WellFormed) :
    name.WellFormed := by
  have hstar : (name.localName == "*") = false := by
    cases axis <;> simp_all [StepOf.isSimple, NodeTest.isWildcard]
  exact ⟨hwf.1, hwf.2.resolve_left (by simpa using hstar)⟩

/-- A node that a step finds is listed, and it is one of those that the step leads to. -/
theorem IsDocument.mem_of_named? (h : IsDocument st root) (hc : c.Settled host st) (hst₁ : st.Extends st₁)
    (hst : st.Extends st') (hr : .json r ∈ root.listing st) {axis : Axis} {test : NodeTest} {es : List Expr}
    {rs : List JsonRef} (hsimple : StepOf.isSimple ⟨axis, test, es⟩ = true)
    (hnodes : axis.nodes (.json r) st = rs.map .json)
    (hindex : ((c.setting host).index ⟨axis, test, es⟩).runOn st₁ = (.ok index, st'))
    (hnamed : (c.setting host).named? st' test (index.getD 0) (rs.map .json) = some q) :
    q ∈ root.listing st ∧ q ∈ (c.surroundings host).stepFrom st ⟨axis, test, es⟩ (.json r) := by
  have hmem : q ∈ axis.nodes (.json r) st := hnodes ▸ Setting.mem_of_named? hnamed
  have hlen : rs.length ≤ Number.exactBound := by
    have hle := (h.rooted.1.axis_length_le hr axis).trans h.narrow
    rwa [hnodes, List.length_map] at hle
  obtain ⟨hshape, hindependent⟩ := (Bool.and_eq_true _ _).mp hsimple
  have hone : es.length ≤ 1 := of_decide_eq_true ((Bool.and_eq_true _ _).mp hshape).2
  have hnone : ∀ e ∈ es, e.isContextDependent = false := fun e he =>
    Expr.independent_of_mem (by simpa using hindependent) he
  exact ⟨h.rooted.1.mem_of_axis hr hmem, hc.mem_stepFrom hst₁ hst hone hnone hnodes hlen hindex hnamed⟩

/-- **Steps from an element** change nothing and lead to a node of the path, which was there; or they lead to a free
place. By induction on how many steps there are: the first one finds a node, or makes one and everything behind it is
free. -/
theorem IsDocument.found_or_spare (h : IsDocument st root) (hc : c.Settled host st) (hst : st.Extends st₁)
    (hr : .json r ∈ root.listing st) (helement : r.asAttribute = false) (hj : st.document? r.doc = some j)
    (hsteps : ∀ step ∈ steps, step.isSimple = true ∧ step.test.WellFormed) (hview : InView j steps)
    (hrun : ((c.setting host).createSteps (.json r) steps).runOn st₁ = (.ok p, st')) :
    st.Extends st' ∧ p ∈ root.listing st ∧ p ∈ (c.surroundings host).eager st steps [.json r] ∨
      st'.SpareAt r.doc j p := by
  induction steps generalizing r st₁ with
  | nil =>
    cases hrun
    exact .inl ⟨hst, hr, List.mem_singleton.mpr rfl⟩
  | cons step steps ih =>
    obtain ⟨⟨hsimple, hwf⟩, hbehind⟩ := List.forall_mem_cons.mp hsteps
    obtain ⟨index, st₂, q, st₃, hindex, hmakes, hrest⟩ := Setting.of_createSteps_cons hsimple hrun
    have hst₂ := hst.trans ((hc.grow hst).runOn_index hindex)
    have hc₂ := hc.grow hst₂
    have hsize : r.doc < st.documents.size := (Array.getElem?_eq_some_iff.mp hj).1
    have hj₂ : st₂.document? r.doc = some j := (hst₂.document? hsize).trans hj
    have hspare : st₃.SpareAt r.doc j q → st'.SpareAt r.doc j p := fun hq =>
      hq.createSteps (hc₂.makes hmakes) (fun step hstep => (hbehind step hstep).1) hrest
    cases hmakes with
    | @stay test es =>
      obtain ⟨rfl, rfl⟩ := StepOf.of_isSimple_self hsimple
      exact (ih hst₂ hr helement hj hbehind hview.2 hrest).imp_left fun ⟨hst', hp, heager⟩ =>
        ⟨hst', hp, Surroundings.mem_eager_cons (List.mem_singleton.mpr rfl) heager⟩
    | child hq =>
      obtain ⟨more, rfl⟩ := Pointer.below_of_mem_children (Setting.mem_of_named? hq)
      rw [Pointer.children_json hj₂ r.path r.asAttribute] at hq
      obtain ⟨hmem, hstep⟩ :=
        h.mem_of_named? hc hst hst₂ hr hsimple (Pointer.children_json hj r.path r.asAttribute) hindex hq
      exact (ih hst₂ hmem rfl hj hbehind hview.2 hrest).imp_left fun ⟨hst', hp, heager⟩ =>
        ⟨hst', hp, Surroundings.mem_eager_cons hstep heager⟩
    | newChild hnone hmade =>
      rw [hj₂, Option.getD_some] at hmade
      exact .inr (hspare (spareAt_newChild helement hj₂ (QName.wellFormed_of_isSimple hsimple hwf) hnone hmade))
    | attr hq =>
      -- An attribute is the last node.
      obtain ⟨rfl, rfl, -⟩ := hview.1 rfl
      cases hrest
      rw [Pointer.attributes_json hj₂ r.path r.asAttribute] at hq
      obtain ⟨hmem, hstep⟩ :=
        h.mem_of_named? hc hst hst₂ hr hsimple (Pointer.attributes_json hj r.path r.asAttribute) hindex hq
      exact .inl ⟨hst₂, hmem, Surroundings.mem_eager_cons hstep (List.mem_singleton.mpr rfl)⟩
    | newAttr hnone hmade =>
      obtain ⟨-, rfl, hshown⟩ := hview.1 rfl
      cases hindex
      rw [hj₂, Option.getD_some] at hmade
      have hname := QName.wellFormed_of_isSimple hsimple hwf
      exact .inr (hspare (spareAt_newAttr helement hj₂ hname (hshown _ rfl) hnone hmade))

/-! ## §D  Values -/

/-- A value that is put at a place of a document. -/
theorem Pointer.of_runOn_setValue {v : Datum} (hj : st.document? r.doc = some j)
    (hrun : ((Pointer.json r).setValue v).runOn st = (.ok (), st')) :
    ∃ j', Json.replace? (v.toJson st) r.path j = some j' ∧ st' = st.setDocument r.doc j' := by
  have hedit : ((Pointer.json r).setValue v).runOn st =
      (editDocument r fun root => (r.setValue (v.toJson st) root).map (·, ())).runOn st := rfl
  rw [hedit, editDocument, Eval.runOn_bind, Eval.runOn_get] at hrun
  dsimp only at hrun
  rw [hj, Option.getD_some, JsonRef.setValue] at hrun
  cases hnew : Json.replace? (v.toJson st) r.path j with
  | none =>
    rw [hnew] at hrun
    cases hrun
  | some j' =>
    rw [hnew] at hrun
    cases hrun
    exact ⟨j', rfl, rfl⟩

/-- An expression that is created and given a value: what it leads to can be created, and takes the value. -/
theorem Context.Settled.of_createAndSet (hc : c.Settled host st) {text : String} {e : Expr} {v : Datum}
    (htext : Expr.parse text = .ok e) (hrun : (c.createPathAndSetValue host text v).runOn st = (.ok p, st')) :
    ∃ st₁, ((c.setting host).create text e).runOn (st.compiled text) = (.ok p, st₁) ∧
      (p.setValue v).runOn st₁ = (.ok (), st') := by
  obtain ⟨e', htext', hused⟩ := Reading.of_runOn_withText hc.sound hrun
  cases htext.symm.trans htext'
  rw [Eval.runOn_bind] at hused
  rcases hmade : ((c.setting host).create text e).runOn (st.compiled text) with ⟨error | q, st₁⟩
  · rw [hmade] at hused
    cases hused
  · rw [hmade] at hused
    dsimp only at hused
    rw [Eval.runOn_bind] at hused
    rcases hset : (q.setValue v).runOn st₁ with ⟨error | _, st₂⟩
    · rw [hset] at hused
      cases hused
    · rw [hset] at hused
      cases hused
      exact ⟨st₁, rfl, hset⟩

/-- A path that is created and given a value: the path is simple, all steps can be created, and the last node takes the
value. -/
theorem Context.Settled.of_createPathAndSetValue (hc : c.Settled host st) {text : String} {absolute : Bool} {v : Datum}
    (htext : Expr.parse text = .ok (.path absolute steps))
    (hrun : (c.createPathAndSetValue host text v).runOn st = (.ok p, st')) :
    (∀ step ∈ steps, step.isSimple = true ∧ step.test.WellFormed) ∧
      ∃ st₁, ((c.setting host).createSteps (c.startOf absolute) steps).runOn (st.compiled text) = (.ok p, st₁) ∧
        (p.setValue v).runOn st₁ = (.ok (), st') := by
  obtain ⟨st₁, hmade, hset⟩ := hc.of_createAndSet htext hrun
  cases hsimple : (Expr.path absolute steps).isSimplePath with
  | false =>
    rw [Setting.create, hsimple] at hmade
    cases hmade
  | true =>
    refine ⟨fun step hstep => ⟨List.all_eq_true.mp hsimple step hstep, ?_⟩, st₁, ?_, hset⟩
    · cases Expr.wellFormed_of_parse htext with
      | path _ htests _ => exact htests step hstep
    · rwa [Setting.create_path hsimple] at hmade

/-- **Creating a path overwrites nothing** but the value of a node that was there. When a path of an element, all of whose
steps are in view, can be created and given a value, the document contains afterwards what it was before, or the node that
was given the value had been a node of the document; and when the path had no node at all, the document contains what it
was. -/
theorem createPathAndSetValue_overwrites_nothing {text : String} {absolute : Bool} {nodes : List Pointer} {v : Datum}
    {b : Option VarRef} {n : QName} (hc : c.Settled host st) (hroot : IsDocument st (.json (.root d b n)))
    (hj : st.document? d = some j) (hstart : c.startOf absolute ∈ (Pointer.json (.root d b n)).listing st)
    (helement : (c.startOf absolute).kind st ≠ .attr) (htext : Expr.parse text = .ok (.path absolute steps))
    (hview : InView j steps) (hnodes : (c.iteratePointers host text).runOn st = (.ok (nodes, none), st₁))
    (hrun : (c.createPathAndSetValue host text v).runOn st = (.ok p, st')) :
    ∃ j', st'.document? d = some j' ∧ (j'.Contains j ∨ p ∈ (Pointer.json (.root d b n)).listing st) ∧
      (nodes = [] → j'.Contains j) := by
  obtain ⟨hsteps, st₂, hmade, hset⟩ := hc.of_createPathAndSetValue htext hrun
  obtain ⟨r, hr, rfl⟩ := hroot.place_of_mem hstart
  have hmem := fun q => hroot.mem_iteratePointers (p := q) hc hstart htext hnodes
  rw [hr] at hstart helement hmade hmem
  have hplain : r.asAttribute = false := by
    by_contra hattr
    exact helement (by simp [Pointer.kind, JsonRef.kind, hattr])
  have hcompiled : st.Extends (st.compiled text) := (Store.Extends.refl hc.sound).compile text
  have hsize : r.doc < st.documents.size := (Array.getElem?_eq_some_iff.mp hj).1
  rcases hroot.found_or_spare hc hcompiled hstart hplain hj hsteps hview hmade with ⟨hst₂, hp, heager⟩ | hspare
  · -- The node was there, so its own value is what is overwritten.
    obtain ⟨q, rfl, hq⟩ := hroot.place_of_mem hp
    have hj₂ : st₂.document? q.doc = some j := by
      rw [hq]
      exact (hst₂.document? hsize).trans hj
    obtain ⟨j', -, rfl⟩ := Pointer.of_runOn_setValue hj₂ hset
    have hsize₂ : r.doc < st₂.documents.size := Nat.lt_of_lt_of_le hsize hst₂.size_le
    refine ⟨j', by rw [hq, Store.document?_setDocument hsize₂], .inr hp, fun hnone => ?_⟩
    subst hnone
    exact absurd ((hmem _).mpr heager) List.not_mem_nil
  · -- The place is free, whatever is put there.
    obtain ⟨q, j₂, rfl, hq, hj₂, hfree⟩ := hspare
    rw [← hq] at hj₂
    obtain ⟨j', hj', rfl⟩ := Pointer.of_runOn_setValue hj₂ hset
    have hsize₂ : q.doc < st₂.documents.size := (Array.getElem?_eq_some_iff.mp hj₂).1
    have hcontains := hfree _ j' hj'
    exact ⟨j', by rw [← hq, Store.document?_setDocument hsize₂], .inl hcontains, fun _ => hcontains⟩

/-- A document with a member in a member. -/
def nestedMember : Json := .object [("a", .object [("b", .int 1)])]

/-- A second element is made, and the member becomes the first one. -/
theorem createPathAndSetValue_overwrites_nothing_element :
    iterated? .atTop stockHost "a/b[2]" (.holding nestedMember) = some [] ∧
      ∃ p st' after, (Context.atTop.createPathAndSetValue stockHost "a/b[2]" (.text "x")).runOn (.holding nestedMember) =
          (.ok p, st') ∧ st'.document? 0 = some after ∧
        after.write = "\x7b\"a\":\x7b\"b\":[1,\"x\"]\x7d\x7d" ∧ after.Contains nestedMember := by
  have hnone : (iterated? .atTop stockHost "a/b[2]" (.holding nestedMember)).map List.length = some 0 := by
    decide +kernel
  obtain ⟨nodes, hnodes, hlength⟩ := Option.map_eq_some_iff.mp hnone
  obtain rfl : nodes = [] := List.length_eq_zero_iff.mp hlength
  obtain ⟨st₁, hiterate⟩ := runOn_of_iterated? hnodes
  have hok : ((Context.atTop.createPathAndSetValue stockHost "a/b[2]" (.text "x")).runOn (.holding nestedMember)).1.isOk =
      true := by decide +kernel
  have hwritten : (((Context.atTop.createPathAndSetValue stockHost "a/b[2]" (.text "x")).runOn
      (.holding nestedMember)).2.document? 0).map Json.write = some "\x7b\"a\":\x7b\"b\":[1,\"x\"]\x7d\x7d" := by
    decide +kernel
  have htext : Expr.parse "a/b[2]" = .ok (.path false
      [⟨.child, .name (.plain "a"), []⟩, ⟨.child, .name (.plain "b"), [.number (.ofNat 2)]⟩]) := by decide +kernel
  have hroot : IsDocument (.holding nestedMember) .firstTop := isDocument_firstTop (by decide +kernel) (by decide +kernel)
  have hstart : Context.atTop.startOf false ∈ Pointer.firstTop.listing (.holding nestedMember) := firstTop_mem_listing _
  have hview : InView nestedMember [⟨.child, .name (.plain "a"), []⟩,
      ⟨.child, .name (.plain "b"), [.number (.ofNat 2)]⟩] := ⟨fun h => (nomatch h), fun h => (nomatch h), trivial⟩
  rcases hrun : (Context.atTop.createPathAndSetValue stockHost "a/b[2]" (.text "x")).runOn (.holding nestedMember) with
    ⟨e | p, st'⟩
  · rw [hrun] at hok
    cases hok
  · obtain ⟨after, hafter, -, hcontains⟩ := createPathAndSetValue_overwrites_nothing (Context.settled_atTop _) hroot rfl
      hstart (by decide) htext hview hiterate hrun
    rw [hrun] at hwritten
    dsimp only at hwritten
    rw [hafter] at hwritten
    exact ⟨hnodes, p, st', after, rfl, hafter, Option.some.inj hwritten, hcontains rfl⟩

/-! ## §E  Out of view -/

/-- A document with an array as a member. -/
def hiddenDocument : Json := .object [("a", .array [.int 1, .int 2])]

/-- **An array is overwritten** by the value of an attribute that was not there: it is no attribute, and it is handed out
as one. -/
theorem createPathAndSetValue_overwrites_hidden :
    iterated? .atTop stockHost "@a" (.holding hiddenDocument) = some [] ∧
      ∃ p st' after, (Context.atTop.createPathAndSetValue stockHost "@a" (.text "x")).runOn (.holding hiddenDocument) =
          (.ok p, st') ∧ st'.document? 0 = some after ∧ ¬after.Contains hiddenDocument := by
  have hnone : (iterated? .atTop stockHost "@a" (.holding hiddenDocument)).map List.length = some 0 := by decide +kernel
  obtain ⟨nodes, hnodes, hlength⟩ := Option.map_eq_some_iff.mp hnone
  obtain rfl : nodes = [] := List.length_eq_zero_iff.mp hlength
  have hok : ((Context.atTop.createPathAndSetValue stockHost "@a" (.text "x")).runOn (.holding hiddenDocument)).1.isOk =
      true := by decide +kernel
  have hvalue : ((((Context.atTop.createPathAndSetValue stockHost "@a" (.text "x")).runOn
      (.holding hiddenDocument)).2.document? 0).bind (Json.at? [.key "a"])).map Json.isArray = some false := by
    decide +kernel
  rcases hrun : (Context.atTop.createPathAndSetValue stockHost "@a" (.text "x")).runOn (.holding hiddenDocument) with
    ⟨e | p, st'⟩
  · rw [hrun] at hok
    cases hok
  rw [hrun] at hvalue
  obtain ⟨value, hvalue, hleaf⟩ := Option.map_eq_some_iff.mp hvalue
  obtain ⟨after, hafter, hvalue⟩ := Option.bind_eq_some_iff.mp hvalue
  refine ⟨hnodes, p, st', after, rfl, hafter, fun hcontains => ?_⟩
  -- An object that contains the one with the array has an array under the same key, in front of all other members.
  cases hcontains with
  | scalar hbranching => cases hbranching
  | first => cases hvalue
  | @object ws _ hkeys hvalues =>
    cases ws with
    | nil => cases hvalue
    | cons w ws =>
      obtain ⟨rest, hrest⟩ := hkeys
      have hkey : "a" = w.1 := (List.cons.inj hrest).1
      have hget : Json.Members.get? (w :: ws) "a" = some w.2 := by
        rw [Json.Members.get?_cons, ← hkey]
        rfl
      have hat : (Json.object (w :: ws)).at? [.key "a"] = some w.2 := by
        rw [Json.at?, Json.child?, hget]
        rfl
      cases hat.symm.trans hvalue
      have harray := (hvalues 0 w _ rfl rfl).isArray_of_isArray rfl
      rw [hleaf] at harray
      cases harray

end NodePath
